import Mathlib

set_option autoImplicit false

/-!
# Words joined by a separator

A word list is written as one word, with a separator between the words. Given how many words there
are, the written word says which they are, unless a word carries the separator and could share it
with a neighbour. Where only some words are in the language, as when a word may not begin or end in
a blank, the parts must be in it as well.

A language is given by what the edges of a word may be (`IsWordOf`), the empty word having no edge.
A boundary between two words can be moved into the first word, which then hands its end on to the
second one (`HandsOn`), or into the second word, whose beginning the first one takes over
(`TakesOver`).

## Main results

- `joined_append`, `joined_move`: a boundary that is moved gives the same word.
- `separator_cases`: two joined words that are equal agree up to the first separator of either, so
  this is where two lists can differ first.
- `movable_of_joined`: two different lists with one joined word have a boundary that can be moved.
- `exists_other_of_movable`: a boundary that can be moved gives another list, of words of the
  language.
- `joined_unique_iff`: so a list is the only one of its length that is written as it is exactly when
  none of its boundaries can be moved.
- `movable_any_iff`: in the language of all words a boundary can be moved exactly when there are two
  words at least and one of them has the separator in it.
-/

namespace Paac

universe u

variable {α : Type u} (sep : α)

/-- The words with the separator between them. -/
def joined (c : List (List α)) : List α := [sep].intercalate c

@[simp] theorem joined_singleton (a : List α) : joined sep [a] = a := by
  simp [joined, List.intercalate]

@[simp] theorem joined_cons_cons (a b : List α) (s : List (List α)) :
    joined sep (a :: b :: s) = a ++ sep :: joined sep (b :: s) := by
  simp [joined, List.intercalate]

theorem joined_cons {a : List α} {s : List (List α)} (hs : s ≠ []) :
    joined sep (a :: s) = a ++ sep :: joined sep s := by
  obtain ⟨b, t, rfl⟩ := List.exists_cons_of_ne_nil hs
  exact joined_cons_cons sep a b t

/-- Words put in front change nothing about which lists are written alike. -/
theorem joined_append {q q' : List (List α)} (hq : q ≠ []) (hq' : q' ≠ [])
    (h : joined sep q = joined sep q') (p : List (List α)) :
    joined sep (p ++ q) = joined sep (p ++ q') := by
  induction p with
  | nil => exact h
  | cons a p ih =>
      rw [List.cons_append, List.cons_append, joined_cons sep (by simp [hq]),
        joined_cons sep (by simp [hq']), ih]

/-- A separator between two words may also close the second one early. -/
theorem joined_move (x y b : List α) (s : List (List α)) :
    joined sep (x :: (y ++ sep :: b) :: s) = joined sep ((x ++ sep :: y) :: b :: s) := by
  cases s with
  | nil => simp
  | cons b' s => simp

/-! ## Words of a language -/

section Words

variable (edge : Option α → Prop)

/-- The word begins and ends as a word may; the edge of the empty word is `none`. -/
def IsWordOf (w : List α) : Prop := edge w.head? ∧ edge w.getLast?

/-- The word is two words with the separator between, and what is behind the separator may begin the
next word. -/
def HandsOn (a : List α) : Prop :=
  ∃ x y, a = x ++ sep :: y ∧ IsWordOf edge x ∧ edge (y ++ [sep]).head?

/-- The word is two words with the separator between, and what is before the separator may end the
previous word. -/
def TakesOver (b : List α) : Prop :=
  ∃ x y, b = x ++ sep :: y ∧ edge (sep :: x).getLast? ∧ IsWordOf edge y

/-- Some boundary between two words can be moved. -/
def Movable (c : List (List α)) : Prop :=
  (∃ a ∈ c.dropLast, HandsOn sep edge a) ∨ ∃ b ∈ c.tail, TakesOver sep edge b

variable {sep edge} (hsep : edge (some sep))

include hsep

/-- A word followed by a separator begins as the word does. -/
theorem edge_head_append {u v : List α} (hu : edge u.head?) : edge (u ++ sep :: v).head? := by
  cases u with
  | nil => exact hsep
  | cons c u => exact hu

theorem edge_getLast_append {u v : List α} (hv : edge v.getLast?) :
    edge (u ++ sep :: v).getLast? := by
  rw [List.getLast?_append_of_ne_nil _ (List.cons_ne_nil sep v)]
  cases v with
  | nil => exact hsep
  | cons c v => exact hv

theorem edge_head_joined {s : List (List α)} (hs : s ≠ []) (hwords : ∀ a ∈ s, IsWordOf edge a) :
    edge (joined sep s).head? := by
  obtain ⟨a, t, rfl⟩ := List.exists_cons_of_ne_nil hs
  have ha := (hwords a List.mem_cons_self).1
  cases t with
  | nil => rwa [joined_singleton]
  | cons b t =>
      rw [joined_cons_cons]
      exact edge_head_append hsep ha

/-! ### Where two lists written alike part -/

omit hsep in
/-- Two words with a separator behind them: they are one word, or the longer one has the separator
where the shorter one ends. -/
theorem separator_cases {a b r s : List α} (h : a ++ sep :: r = b ++ sep :: s) :
    (a = b ∧ r = s) ∨ (∃ y, a = b ++ sep :: y ∧ s = y ++ sep :: r) ∨
      ∃ y, b = a ++ sep :: y ∧ r = y ++ sep :: s := by
  rcases List.append_eq_append_iff.1 h with ⟨z, hb, hz⟩ | ⟨z, ha, hz⟩
  · cases z with
    | nil => exact Or.inl ⟨by simpa using hb.symm, by simpa using hz⟩
    | cons c y =>
        obtain ⟨rfl, hr⟩ := List.cons.inj hz
        exact Or.inr (Or.inr ⟨y, hb, hr⟩)
  · cases z with
    | nil => exact Or.inl ⟨by simpa using ha, by simpa using hz.symm⟩
    | cons c y =>
        obtain ⟨rfl, hs⟩ := List.cons.inj hz
        exact Or.inr (Or.inl ⟨y, ha, hs⟩)

/-- A list that is written like a shorter word and another list of as many words has a word that
takes over a boundary: the extra text `u` ends in one of its words. -/
theorem takesOver_of_joined {t t' : List (List α)} {u : List α} (hlen : t.length = t'.length)
    (hne : t ≠ []) (ht : ∀ a ∈ t, IsWordOf edge a) (ht' : ∀ a ∈ t', IsWordOf edge a)
    (hu : edge (sep :: u).getLast?) (h : joined sep t = u ++ sep :: joined sep t') :
    ∃ b ∈ t, TakesOver sep edge b := by
  induction t generalizing t' u with
  | nil => exact absurd rfl hne
  | cons a t ih =>
      cases t' with
      | nil => cases hlen
      | cons a' t' =>
          have ha := ht a List.mem_cons_self
          have ha' := ht' a' List.mem_cons_self
          cases t with
          | nil =>
              -- the last word of both lists
              obtain rfl := List.length_eq_zero_iff.1 (Nat.succ.inj hlen).symm
              rw [joined_singleton, joined_singleton] at h
              exact ⟨a, List.mem_cons_self, u, a', h, hu, ha'⟩
          | cons b t =>
              obtain ⟨b', s', rfl⟩ : ∃ b' s', t' = b' :: s' := by
                apply List.exists_cons_of_ne_nil
                rintro rfl
                cases hlen
              rw [joined_cons_cons, joined_cons_cons] at h
              have h' : a ++ sep :: joined sep (b :: t) =
                  (u ++ sep :: a') ++ sep :: joined sep (b' :: s') := by
                rw [h, List.append_assoc, List.cons_append]
              rcases separator_cases h' with ⟨rfl, -⟩ | ⟨y, hy, -⟩ | ⟨y, hy, hrest⟩
              · exact ⟨_, List.mem_cons_self, u, a', rfl, hu, ha'⟩
              · -- the first word takes in more than the extra text and the other first word
                refine ⟨a, List.mem_cons_self, u, a' ++ sep :: y, ?_, hu, ?_, ?_⟩
                · rw [hy, List.append_assoc, List.cons_append]
                · exact edge_head_append hsep ha'.1
                · have hlast := ha.2
                  rw [hy, List.getLast?_append_of_ne_nil _ (List.cons_ne_nil sep y)] at hlast
                  rwa [List.getLast?_append_of_ne_nil _ (List.cons_ne_nil sep y)]
              · -- the first word ends in the extra text, which goes on behind it
                have hlast : edge (sep :: y).getLast? := by
                  have hend := edge_getLast_append hsep (u := u) ha'.2
                  rwa [hy, List.getLast?_append_of_ne_nil _ (List.cons_ne_nil sep y)] at hend
                obtain ⟨w, hw, hover⟩ := ih (Nat.succ.inj hlen) (List.cons_ne_nil b t)
                  (fun w hw => ht w (List.mem_cons_of_mem a hw))
                  (fun w hw => ht' w (List.mem_cons_of_mem a' hw)) hlast hrest
                exact ⟨w, List.mem_cons_of_mem a hw, hover⟩

/-- Of two lists of words written alike, of one length, the first has a boundary that can be moved. -/
theorem movable_of_joined {c d : List (List α)} (hc : ∀ a ∈ c, IsWordOf edge a)
    (hd : ∀ a ∈ d, IsWordOf edge a) (hlen : d.length = c.length) (hne : d ≠ c)
    (h : joined sep d = joined sep c) : Movable sep edge c := by
  induction c generalizing d with
  | nil => exact absurd (List.length_eq_zero_iff.1 hlen) hne
  | cons a s ih =>
      obtain ⟨b, t, rfl⟩ : ∃ b t, d = b :: t := by
        apply List.exists_cons_of_ne_nil
        rintro rfl
        cases hlen
      have hlen' : t.length = s.length := Nat.succ.inj hlen
      -- one word is written without separators, so the other list has the same one
      cases hs : s with
      | nil =>
          rw [hs] at hlen'
          obtain rfl := List.length_eq_zero_iff.1 hlen'
          subst hs
          rw [joined_singleton, joined_singleton] at h
          exact absurd (by rw [h]) hne
      | cons a' s' =>
          have hsne : s ≠ [] := by simp [hs]
          have htne : t ≠ [] := by
            rintro rfl
            rw [hs] at hlen'
            cases hlen'
          rw [joined_cons sep htne, joined_cons sep hsne] at h
          have hs_words : ∀ w ∈ s, IsWordOf edge w := fun w hw => hc w (List.mem_cons_of_mem a hw)
          have ht_words : ∀ w ∈ t, IsWordOf edge w := fun w hw => hd w (List.mem_cons_of_mem b hw)
          rw [← hs]
          rcases separator_cases h.symm with ⟨rfl, hrest⟩ | ⟨y, hy, hrest⟩ | ⟨y, hy, hrest⟩
          · -- one first word: the lists part behind it
            have hts : t ≠ s := fun hts => hne (by rw [hts])
            rcases ih hs_words ht_words hlen' hts hrest.symm with ⟨w, hw, hon⟩ | ⟨w, hw, hover⟩
            · refine Or.inl ⟨w, ?_, hon⟩
              rw [List.dropLast_cons_of_ne_nil hsne]
              exact List.mem_cons_of_mem a hw
            · exact Or.inr ⟨w, List.mem_of_mem_tail hw, hover⟩
          · -- the first word of the other list ends earlier
            refine Or.inl ⟨a, ?_, b, y, hy, hd b List.mem_cons_self, ?_⟩
            · rw [List.dropLast_cons_of_ne_nil hsne]
              exact List.mem_cons_self
            · have hhead := edge_head_joined hsep htne ht_words
              rw [hrest] at hhead
              cases y with
              | nil => exact hhead
              | cons c y => exact hhead
          · -- the first word of the other list ends later
            have hlast : edge (sep :: y).getLast? := by
              have hend := (hd b List.mem_cons_self).2
              rwa [hy, List.getLast?_append_of_ne_nil _ (List.cons_ne_nil sep y)] at hend
            exact Or.inr (takesOver_of_joined hsep hlen'.symm hsne hs_words ht_words hlast hrest)

/-! ### Moving a boundary -/

omit hsep in
theorem exists_next_of_mem_dropLast {c : List (List α)} {a : List α} (ha : a ∈ c.dropLast) :
    ∃ p b s, c = p ++ a :: b :: s := by
  have hne : c ≠ [] := by
    rintro rfl
    cases ha
  obtain ⟨p, q, hq⟩ := List.append_of_mem ha
  have hc : c = p ++ a :: (q ++ [c.getLast hne]) := by
    conv_lhs => rw [← List.dropLast_append_getLast hne, hq]
    simp
  obtain ⟨b, s, hbs⟩ := List.exists_cons_of_ne_nil (l := q ++ [c.getLast hne]) (by simp)
  exact ⟨p, b, s, by rw [hc, hbs]⟩

omit hsep in
theorem exists_previous_of_mem_tail {c : List (List α)} {b : List α} (hb : b ∈ c.tail) :
    ∃ p a s, c = p ++ a :: b :: s := by
  cases c with
  | nil => cases hb
  | cons x t =>
      obtain ⟨q, s, rfl⟩ := List.append_of_mem hb
      rcases List.eq_nil_or_concat (x :: q) with h | ⟨p, a, h⟩
      · cases h
      · refine ⟨p, a, s, ?_⟩
        rw [← List.cons_append, h, List.concat_eq_append]
        simp

/-- Where a boundary can be moved another list is joined to the same word. -/
theorem exists_other_of_movable {c : List (List α)} (hc : ∀ a ∈ c, IsWordOf edge a)
    (h : Movable sep edge c) :
    ∃ d, (∀ a ∈ d, IsWordOf edge a) ∧ d.length = c.length ∧ joined sep d = joined sep c ∧ d ≠ c := by
  rcases h with ⟨a, ha, x, y, hxy, hx, hy⟩ | ⟨b, hb, x, y, hxy, hx, hy⟩
  · obtain ⟨p, b, s, rfl⟩ := exists_next_of_mem_dropLast ha
    -- a separator of a word becomes one between words, and the old one goes into the next word
    refine ⟨p ++ x :: (y ++ sep :: b) :: s, ?_, by simp, ?_, ?_⟩
    · have hb := hc b (by simp)
      intro w hw
      simp only [List.mem_append, List.mem_cons] at hw
      rcases hw with hw | rfl | rfl | hw
      · exact hc w (by simp [hw])
      · exact hx
      · refine ⟨?_, edge_getLast_append hsep hb.2⟩
        cases y with
        | nil => exact hsep
        | cons c y => exact hy
      · exact hc w (by simp [hw])
    · rw [hxy]
      exact joined_append sep (by simp) (by simp) (joined_move sep x y b s) p
    · intro heq
      have hparts := List.append_cancel_left heq
      rw [hxy] at hparts
      have hlength := congrArg List.length (List.cons.inj hparts).1
      simp at hlength
  · obtain ⟨p, a, s, rfl⟩ := exists_previous_of_mem_tail hb
    -- the same towards the word in front
    refine ⟨p ++ (a ++ sep :: x) :: y :: s, ?_, by simp, ?_, ?_⟩
    · have ha := hc a (by simp)
      intro w hw
      simp only [List.mem_append, List.mem_cons] at hw
      rcases hw with hw | rfl | rfl | hw
      · exact hc w (by simp [hw])
      · refine ⟨edge_head_append hsep ha.1, ?_⟩
        rwa [List.getLast?_append_of_ne_nil _ (List.cons_ne_nil sep x)]
      · exact hy
      · exact hc w (by simp [hw])
    · rw [hxy]
      exact joined_append sep (by simp) (by simp) (joined_move sep a x y s).symm p
    · intro heq
      have hparts := List.append_cancel_left heq
      have hlength := congrArg List.length (List.cons.inj hparts).1
      simp at hlength

/-- **A list of words is the only one of its length that is written as it is** exactly when none of
its boundaries can be moved. -/
theorem joined_unique_iff {c : List (List α)} (hc : ∀ a ∈ c, IsWordOf edge a) :
    (∀ d, (∀ a ∈ d, IsWordOf edge a) → d.length = c.length → joined sep d = joined sep c → d = c) ↔
      ¬Movable sep edge c := by
  constructor
  · intro h hmovable
    obtain ⟨d, hd, hlen, hjoined, hne⟩ := exists_other_of_movable hsep hc hmovable
    exact hne (h d hd hlen hjoined)
  · intro h d hd hlen hjoined
    by_contra hne
    exact h (movable_of_joined hsep hc hd hlen hne hjoined)

end Words

/-- Where every word is in the language, a boundary can be moved exactly when there is one and some
word carries the separator. -/
theorem movable_any_iff {c : List (List α)} :
    Movable sep (fun _ => True) c ↔ 2 ≤ c.length ∧ ∃ a ∈ c, sep ∈ a := by
  have hcut : ∀ {a : List α}, sep ∈ a ↔ ∃ x y, a = x ++ sep :: y :=
    ⟨List.append_of_mem, by rintro ⟨x, y, rfl⟩; simp⟩
  constructor
  · rintro (⟨a, ha, x, y, rfl, -⟩ | ⟨b, hb, x, y, rfl, -⟩)
    · obtain ⟨p, b, s, rfl⟩ := exists_next_of_mem_dropLast ha
      exact ⟨by simp only [List.length_append, List.length_cons]; omega, x ++ sep :: y, by simp, by simp⟩
    · obtain ⟨p, a, s, rfl⟩ := exists_previous_of_mem_tail hb
      exact ⟨by simp only [List.length_append, List.length_cons]; omega, x ++ sep :: y, by simp, by simp⟩
  · rintro ⟨hlen, a, ha, hsep⟩
    obtain ⟨x, y, hxy⟩ := hcut.1 hsep
    obtain ⟨b, b', s, rfl⟩ : ∃ b b' s, c = b :: b' :: s := by
      match c, hlen with
      | b :: b' :: s, _ => exact ⟨b, b', s, rfl⟩
    rcases List.mem_cons.1 ha with rfl | ha
    · exact Or.inl ⟨a, by simp, x, y, hxy, ⟨trivial, trivial⟩, trivial⟩
    · exact Or.inr ⟨a, ha, x, y, hxy, trivial, ⟨trivial, trivial⟩⟩

end Paac
