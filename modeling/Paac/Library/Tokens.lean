import Paac.Library.Words

set_option autoImplicit false

/-!
# Tokens

The tokens of a text are its longest parts without a separator. Which characters separate is a
parameter. Trimming and splitting at separators keeps the tokens, so two texts that differ in their
separators only have the same tokens, and a parser that splits in several rounds is compared with
one that splits once.

## Main results

- `tokens_append_cons`, `tokens_intercalate`: the tokens of a text that was put together.
- `tokens_trim`, `tokens_trimStartMatchesChar`, `tokens_splitChars`, `tokens_split`: trimming and
  splitting at separators keep them.
- `not_sep_of_mem_tokens`, `tokens_ne_nil`: a token has a character and no separator.
- `eq_of_tokens_eq_singleton`: what a text with one token is.
- `splitWhitespaceChars_eq_tokens`: the words of a text are its tokens between white space.
- `trim_eq_of_splitWhitespace`: a text with one word trims to the word.
-/

namespace Paac.Text

/-- The non-empty pieces between separators. -/
def tokens (sep : Char → Bool) (cs : List Char) : List (List Char) :=
  (cs.splitOnP sep).filter fun t => !t.isEmpty

section

variable {sep : Char → Bool}

theorem tokens_append_cons {c : Char} (h : sep c = true) (cs ds : List Char) :
    tokens sep (cs ++ c :: ds) = tokens sep cs ++ tokens sep ds := by
  rw [tokens, List.splitOnP_append_cons cs ds h, List.filter_append]
  rfl

theorem tokens_cons {c : Char} (h : sep c = true) (cs : List Char) :
    tokens sep (c :: cs) = tokens sep cs := tokens_append_cons h [] cs

theorem tokens_append_left {cs : List Char} (h : ∀ c ∈ cs, sep c = true) (ds : List Char) :
    tokens sep (cs ++ ds) = tokens sep ds := by
  induction cs with
  | nil => rfl
  | cons c cs ih =>
      rw [List.forall_mem_cons] at h
      rw [List.cons_append, tokens_cons h.1, ih h.2]

theorem tokens_eq_nil {cs : List Char} (h : ∀ c ∈ cs, sep c = true) : tokens sep cs = [] := by
  have hnil := tokens_append_left h []
  rw [List.append_nil] at hnil
  exact hnil

theorem tokens_append_right (cs : List Char) {ds : List Char} (h : ∀ d ∈ ds, sep d = true) :
    tokens sep (cs ++ ds) = tokens sep cs := by
  cases ds with
  | nil => rw [List.append_nil]
  | cons d ds =>
      rw [List.forall_mem_cons] at h
      rw [tokens_append_cons h.1, tokens_eq_nil h.2, List.append_nil]

theorem tokens_of_free {cs : List Char} (hne : cs ≠ []) (h : ∀ c ∈ cs, sep c = false) :
    tokens sep cs = [cs] := by
  rw [tokens, List.splitOnP_eq_singleton h, List.filter_cons_of_pos, List.filter_nil]
  rwa [Bool.not_eq_true', List.isEmpty_eq_false_iff]

/-- The parts between separators have none. -/
theorem not_sep_of_mem_splitOnP (cs : List Char) :
    ∀ t ∈ cs.splitOnP sep, ∀ c ∈ t, sep c = false := by
  induction cs with
  | nil =>
      intro t ht c hc
      rw [List.splitOnP_nil, List.mem_singleton] at ht
      rw [ht] at hc
      cases hc
  | cons d cs ih =>
      intro t ht
      rw [List.splitOnP_cons_eq_if_modifyHead] at ht
      split at ht
      · rcases List.mem_cons.1 ht with rfl | ht
        · exact fun c hc => absurd hc List.not_mem_nil
        · exact ih t ht
      · rename_i hd
        cases hpieces : cs.splitOnP sep with
        | nil => exact absurd hpieces (List.splitOnP_ne_nil sep cs)
        | cons piece rest =>
            rw [hpieces, List.forall_mem_cons] at ih
            rw [hpieces, List.modifyHead_cons] at ht
            rcases List.mem_cons.1 ht with rfl | ht
            · rw [List.forall_mem_cons]
              exact ⟨Bool.eq_false_iff.2 hd, ih.1⟩
            · exact ih.2 t ht

/-- A token has no separator. -/
theorem not_sep_of_mem_tokens {cs t : List Char} (h : t ∈ tokens sep cs) :
    ∀ c ∈ t, sep c = false := not_sep_of_mem_splitOnP cs t (List.mem_of_mem_filter h)

/-- A character that is no separator is in a token. -/
theorem tokens_ne_nil {cs : List Char} {c : Char} (hc : c ∈ cs) (h : sep c = false) :
    tokens sep cs ≠ [] := by
  induction cs with
  | nil => cases hc
  | cons d cs ih =>
      cases hd : sep d with
      | true =>
          rw [tokens_cons hd]
          rcases List.mem_cons.1 hc with rfl | hc
          · rw [h] at hd
            cases hd
          · exact ih hc
      | false =>
          rw [tokens, List.splitOnP_cons_eq_if_modifyHead, hd, if_neg Bool.false_ne_true]
          cases hpieces : cs.splitOnP sep with
          | nil => exact absurd hpieces (List.splitOnP_ne_nil sep cs)
          | cons piece rest => exact List.cons_ne_nil _ _

/-- A text that starts and ends inside a token and has only one is that token. -/
theorem eq_of_tokens_eq_singleton {cs t : List Char} (h : tokens sep cs = [t])
    (hhead : ∀ c, cs.head? = some c → sep c = false)
    (hlast : ∀ c, cs.getLast? = some c → sep c = false) : cs = t := by
  by_cases hfree : ∀ c ∈ cs, sep c = false
  · cases cs with
    | nil => cases h
    | cons c cs =>
        rw [tokens_of_free (List.cons_ne_nil c cs) hfree, List.singleton_inj] at h
        exact h
  · -- a separator inside would leave a token on either side
    push Not at hfree
    obtain ⟨c, hc, hsep⟩ := hfree
    rw [Ne, Bool.not_eq_false] at hsep
    obtain ⟨as, bs, rfl⟩ := List.append_of_mem hc
    rw [tokens_append_cons hsep] at h
    have has : tokens sep as ≠ [] := by
      cases as with
      | nil => exact absurd (hhead c rfl) (by rw [hsep]; decide)
      | cons a as => exact tokens_ne_nil List.mem_cons_self (hhead a rfl)
    have hbs : tokens sep bs ≠ [] := by
      cases hend : bs.getLast? with
      | none =>
          rw [List.getLast?_eq_none_iff] at hend
          rw [hend, List.getLast?_append] at hlast
          have hc := hlast c rfl
          rw [hsep] at hc
          cases hc
      | some b =>
          refine tokens_ne_nil (List.mem_of_getLast? hend) (hlast b ?_)
          rw [List.getLast?_append, List.getLast?_cons, hend]
          rfl
    have hlen := congrArg List.length h
    rw [List.length_append, List.length_singleton] at hlen
    have has' := List.length_pos_iff.2 has
    have hbs' := List.length_pos_iff.2 hbs
    omega

variable {p : Char → Bool}

theorem tokens_dropWhile (h : ∀ c, p c = true → sep c = true) (cs : List Char) :
    tokens sep (cs.dropWhile p) = tokens sep cs := by
  conv_rhs => rw [← List.takeWhile_append_dropWhile (p := p) (l := cs)]
  exact (tokens_append_left (fun c hc => h c (List.mem_takeWhile_imp hc)) _).symm

theorem tokens_rdropWhile (h : ∀ c, p c = true → sep c = true) (cs : List Char) :
    tokens sep (cs.rdropWhile p) = tokens sep cs := by
  have hsplit : cs = cs.rdropWhile p ++ cs.rtakeWhile p := by
    rw [List.rdropWhile, List.rtakeWhile, ← List.reverse_append, List.takeWhile_append_dropWhile,
      List.reverse_reverse]
  conv_rhs => rw [hsplit]
  refine (tokens_append_right _ fun c hc => h c ?_).symm
  exact List.mem_rtakeWhile_imp hc

theorem tokens_trim (h : ∀ c, isWhitespace c = true → sep c = true) (s : String) :
    tokens sep (trim s).toList = tokens sep s.toList := by
  rw [trim, String.toList_ofList, tokens_rdropWhile h, tokens_dropWhile h]

theorem tokens_trimStartMatchesChar {c : Char} (h : sep c = true) (s : String) :
    tokens sep (trimStartMatchesChar c s).toList = tokens sep s.toList := by
  rw [trimStartMatchesChar, String.toList_ofList]
  exact tokens_dropWhile (fun d hd => by rwa [beq_iff_eq.1 hd]) _

theorem tokens_trimEndMatchesChar {c : Char} (h : sep c = true) (s : String) :
    tokens sep (trimEndMatchesChar c s).toList = tokens sep s.toList := by
  rw [trimEndMatchesChar, String.toList_ofList]
  exact tokens_rdropWhile (fun d hd => by rwa [beq_iff_eq.1 hd]) _

theorem splitChars_eq_splitOn (c : Char) (cs : List Char) : splitChars c cs = cs.splitOn c := by
  induction cs with
  | nil => rfl
  | cons d ds ih =>
      rw [splitChars, List.splitOn_cons_eq_if_modifyHead, ih]
      by_cases hd : d = c
      · rw [if_pos hd, if_pos (by rwa [beq_iff_eq])]
      · rw [if_neg hd, if_neg (by rwa [beq_iff_eq])]
        cases hpieces : ds.splitOn c with
        | nil => exact absurd hpieces (List.splitOn_ne_nil c ds)
        | cons piece rest => rfl

/-- The pieces have the characters of the text but its separators. -/
theorem exists_mem_splitChars {c d : Char} {cs : List Char} :
    (∃ piece ∈ splitChars c cs, d ∈ piece) ↔ d ∈ cs ∧ d ≠ c := by
  induction cs with
  | nil => simp [splitChars]
  | cons e es ih =>
      rw [splitChars]
      split
      · rename_i he
        subst he
        simp only [List.mem_cons, exists_eq_or_imp, List.not_mem_nil, false_or, ih]
        constructor
        · rintro ⟨hd, hne⟩
          exact ⟨Or.inr hd, hne⟩
        · rintro ⟨rfl | hd, hne⟩
          · exact absurd rfl hne
          · exact ⟨hd, hne⟩
      · rename_i he
        cases hpieces : splitChars c es with
        | nil => exact absurd hpieces (splitChars_ne_nil c es)
        | cons piece pieces =>
            -- the character goes to the first piece of the rest
            rw [hpieces] at ih
            simp only [List.mem_cons, exists_eq_or_imp] at ih ⊢
            constructor
            · rintro ((rfl | hd) | hd)
              · exact ⟨Or.inl rfl, he⟩
              · exact ⟨Or.inr (ih.1 (Or.inl hd)).1, (ih.1 (Or.inl hd)).2⟩
              · exact ⟨Or.inr (ih.1 (Or.inr hd)).1, (ih.1 (Or.inr hd)).2⟩
            · rintro ⟨rfl | hd, hne⟩
              · exact Or.inl (Or.inl rfl)
              · rcases ih.2 ⟨hd, hne⟩ with hd | hd
                · exact Or.inl (Or.inr hd)
                · exact Or.inr hd

/-- The tokens of joined pieces are those of the pieces. -/
theorem tokens_intercalate {c : Char} (h : sep c = true) (pieces : List (List Char)) :
    tokens sep ([c].intercalate pieces) = pieces.flatMap (tokens sep) := by
  induction pieces with
  | nil => rfl
  | cons piece rest ih =>
      cases rest with
      | nil => rw [List.intercalate_singleton, List.flatMap_singleton]
      | cons piece' rest =>
          rw [List.intercalate_cons_cons, List.append_assoc, List.singleton_append,
            tokens_append_cons h, ih]
          rfl

theorem tokens_splitChars {c : Char} (h : sep c = true) (cs : List Char) :
    (splitChars c cs).flatMap (tokens sep) = tokens sep cs := by
  rw [← tokens_intercalate h, splitChars_eq_splitOn, List.intercalate_splitOn]

/-- Splitting at a separator keeps the tokens. -/
theorem tokens_split {c : Char} (h : sep c = true) (s : String) :
    ((split c s).flatMap fun piece => tokens sep piece.toList) = tokens sep s.toList := by
  rw [split, List.flatMap_map, ← tokens_splitChars h]
  exact List.flatMap_congr fun piece _ => by rw [String.toList_ofList]

end

/-- The words of a text are its tokens between whitespace. -/
theorem splitWhitespaceChars_eq_tokens (cs : List Char) :
    splitWhitespaceChars cs = tokens isWhitespace cs := by
  -- on the length, since the recursion drops a whole word at a time
  have hbounded : ∀ n, ∀ cs : List Char, cs.length ≤ n →
      splitWhitespaceChars cs = tokens isWhitespace cs := by
    intro n
    induction n with
    | zero =>
        intro cs hcs
        rw [List.length_eq_zero_iff.1 (Nat.le_zero.1 hcs)]
        rfl
    | succ n ih =>
        intro cs hcs
        have hsplit := List.takeWhile_append_dropWhile (p := fun c => !isWhitespace c) (l := cs)
        have hword : ∀ c ∈ cs.takeWhile (fun c => !isWhitespace c), isWhitespace c = false := by
          intro c hc
          have hnot := List.mem_takeWhile_imp hc
          rwa [Bool.not_eq_true'] at hnot
        cases hrest : cs.dropWhile fun c => !isWhitespace c with
        | nil =>
            rw [hrest, List.append_nil] at hsplit
            rw [hsplit] at hword
            cases cs with
            | nil => rfl
            | cons c cs =>
                rw [splitWhitespaceChars_single (List.cons_ne_nil c cs) hword,
                  tokens_of_free (List.cons_ne_nil c cs) hword]
        | cons e rest =>
            have he : isWhitespace e = true := by
              have hnot := List.head?_dropWhile_not (fun c => !isWhitespace c) cs
              rw [hrest] at hnot
              simpa using hnot
            rw [hrest] at hsplit
            have hlen := congrArg List.length hsplit
            rw [List.length_append, List.length_cons] at hlen
            have htail := ih rest (by omega)
            rw [← hsplit]
            cases hfirst : cs.takeWhile fun c => !isWhitespace c with
            | nil =>
                rw [List.nil_append, tokens_cons he, ← htail, splitWhitespaceChars.eq_def]
                simp only [he, if_true]
            | cons c word =>
                rw [hfirst] at hword
                rw [splitWhitespaceChars_word (List.cons_ne_nil c word) hword he, htail,
                  tokens_append_cons he, tokens_of_free (List.cons_ne_nil c word) hword]
                rfl
  exact hbounded cs.length cs (Nat.le_refl _)

/-- A trimmed text with one word is that word. -/
theorem trim_eq_of_splitWhitespace {s w : String} (h : splitWhitespace (trim s) = [w]) :
    trim s = w := by
  rw [splitWhitespace, splitWhitespaceChars_eq_tokens, List.map_eq_singleton_iff] at h
  obtain ⟨t, ht, rfl⟩ := h
  have htext := eq_of_tokens_eq_singleton ht (fun _ => trim_head) fun _ => trim_getLast
  rw [← htext, String.ofList_toList]

/-- A text whose first word is the text has no other word. -/
theorem splitWhitespace_eq_of_head {s : String} (h : (splitWhitespace s).head? = some s) :
    splitWhitespace s = [s] := by
  rw [splitWhitespace, splitWhitespaceChars_eq_tokens] at h ⊢
  cases htokens : tokens isWhitespace s.toList with
  | nil => rw [htokens] at h; cases h
  | cons t ts =>
      have hmem : t ∈ tokens isWhitespace s.toList := by
        rw [htokens]
        exact List.mem_cons_self
      rw [htokens, List.map_cons, List.head?_cons, Option.some.injEq] at h
      have ht : s.toList = t := by rw [← h, String.toList_ofList]
      have hfree := not_sep_of_mem_tokens hmem
      have hne := (List.mem_filter.1 hmem).2
      rw [Bool.not_eq_true', List.isEmpty_eq_false_iff] at hne
      rw [ht, tokens_of_free hne hfree] at htokens
      rw [← htokens, List.map_singleton, h]

/-! ## Repeated suffixes -/

/-- A text again and again. -/
def repeated (n : Nat) (s : String) : String := String.ofList (List.replicate n s.toList).flatten

/-- What is dropped is the prefix, some number of times. -/
theorem dropPrefixes_replicate (p : List Char) (n : Nat) :
    ∀ cs : List Char, ∃ k, cs = (List.replicate k p).flatten ++ dropPrefixes p n cs := by
  induction n with
  | zero => exact fun cs => ⟨0, rfl⟩
  | succ n ih =>
      intro cs
      rw [dropPrefixes]
      cases hcs : dropPrefix? p cs with
      | none => exact ⟨0, rfl⟩
      | some rest =>
          obtain ⟨k, hk⟩ := ih rest
          refine ⟨k + 1, ?_⟩
          rw [List.replicate_succ, List.flatten_cons, List.append_assoc, ← hk]
          exact dropPrefix?_eq_some hcs

/-- What `trimEndMatches` removes is the suffix, some number of times. -/
theorem trimEndMatches_repeated (p s : String) :
    ∃ n, s = trimEndMatches p s ++ repeated n p := by
  obtain ⟨n, hn⟩ := dropPrefixes_replicate p.toList.reverse s.length s.toList.reverse
  refine ⟨n, ?_⟩
  have hreverse := congrArg List.reverse hn
  rw [List.reverse_reverse, List.reverse_append, List.reverse_flatten, List.map_replicate,
    List.reverse_reverse, List.reverse_replicate] at hreverse
  rw [← String.toList_inj, String.toList_append, trimEndMatches, repeated, String.toList_ofList,
    String.toList_ofList]
  exact hreverse

end Paac.Text
