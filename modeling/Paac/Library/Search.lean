import Paac.Library.Words

set_option autoImplicit false

/-!
# Searching a text that is made of pieces

`cut` finds the first occurrence of a text in another and gives what stands before and after it, as
`str::find` with the two slices does. Much text is made of pieces, such as tags and what stands
between them. Where no boundary between two pieces can fall into the text that is looked for, its
first occurrence in the whole is the first occurrence in the first piece that has one, so a search
on characters becomes a search on pieces.

The text that is looked for is `Unbroken` between two characters when it can have the first one at
its beginning only and the second one at its end only; pieces are `Sealed` when each of them ends
with the second, or the next begins with the first. An occurrence across a boundary would need one
of the two characters inside.

## Main results

- `cut_eq`, `cut_isSome_iff`: a cut takes a text apart, and succeeds where the text occurs.
- `cut_append`: the first occurrence in a text that is put together.
- `Unbroken.not_across`: no occurrence lies across a boundary.
- `cut_pieces`: so the search goes piece by piece.
- `boundary_unique`: a place in a piece is the end of one piece only.
-/

namespace Paac.Text

/-! ## The first occurrence -/

/-- What stands before the first occurrence, and what stands after it. -/
def cut (w : List Char) : List Char → Option (List Char × List Char)
  | [] => if w = [] then some ([], []) else none
  | c :: cs =>
      match dropPrefix? w (c :: cs) with
      | some rest => some ([], rest)
      | none => (cut w cs).map fun r => (c :: r.1, r.2)

/-- `str::find`, as the number of characters before the occurrence. -/
def find (w cs : List Char) : Option ℕ := (cut w cs).map fun r => r.1.length

/-- What is cut is a part of the text. -/
theorem cut_eq {w : List Char} :
    ∀ {cs x y : List Char}, cut w cs = some (x, y) → cs = x ++ (w ++ y)
  | [], x, y, h => by
      rw [cut] at h
      split at h
      · rename_i hw
        cases h
        rw [hw]
        rfl
      · cases h
  | c :: cs, x, y, h => by
      rw [cut] at h
      -- the word starts here, or somewhere in the rest
      cases hdrop : dropPrefix? w (c :: cs) with
      | some rest =>
          rw [hdrop] at h
          cases h
          rw [List.nil_append]
          exact dropPrefix?_eq_some hdrop
      | none =>
          rw [hdrop] at h
          obtain ⟨⟨x', y'⟩, hcut, heq⟩ := Option.map_eq_some_iff.1 h
          cases heq
          rw [cut_eq hcut, List.cons_append]

/-- Whatever occurs has a first occurrence. -/
theorem cut_of_append {w : List Char} (y : List Char) :
    ∀ x : List Char, ∃ x' y', cut w (x ++ (w ++ y)) = some (x', y') ∧ w ++ y <:+ w ++ y'
  | [] => by
      cases hcs : w ++ y with
      | nil =>
          obtain ⟨rfl, rfl⟩ := List.append_eq_nil_iff.1 hcs
          exact ⟨[], [], rfl, List.suffix_refl _⟩
      | cons c cs =>
          rw [List.nil_append, cut, ← hcs, dropPrefix?_append]
          exact ⟨[], y, rfl, List.suffix_refl _⟩
  | c :: x => by
      rw [List.cons_append, cut]
      cases hdrop : dropPrefix? w (c :: (x ++ (w ++ y))) with
      | some rest =>
          have hrest := dropPrefix?_eq_some hdrop
          refine ⟨[], rest, rfl, ?_⟩
          rw [← hrest]
          exact (List.suffix_append x _).trans (List.suffix_cons _ _)
      | none =>
          obtain ⟨x', y', hcut, hsuffix⟩ := cut_of_append y x
          rw [hcut]
          exact ⟨c :: x', y', rfl, hsuffix⟩

theorem cut_isSome_iff {w cs : List Char} : (cut w cs).isSome = true ↔ w <:+: cs := by
  rw [Option.isSome_iff_exists]
  constructor
  · rintro ⟨⟨x, y⟩, h⟩
    exact ⟨x, y, by rw [cut_eq h, List.append_assoc]⟩
  · rintro ⟨x, y, rfl⟩
    obtain ⟨x', y', hcut, -⟩ := cut_of_append (w := w) y x
    rw [List.append_assoc]
    exact ⟨_, hcut⟩

/-- The first occurrence in a text of two parts, where none lies across their boundary. -/
theorem cut_append {w : List Char} (hw : w ≠ []) (v : List Char) :
    ∀ u : List Char, (∀ x y, w = x ++ y → x ≠ [] → y ≠ [] → x <:+ u → ¬y <+: v) →
      cut w (u ++ v) =
        match cut w u with
        | some r => some (r.1, r.2 ++ v)
        | none => (cut w v).map fun r => (u ++ r.1, r.2)
  | [], _ => by
      rw [cut, if_neg hw, List.nil_append]
      cases cut w v <;> rfl
  | c :: u, h => by
      have ih := cut_append hw v u fun x y hxy hx hy hsuffix =>
        h x y hxy hx hy (hsuffix.trans (List.suffix_cons c u))
      rw [List.cons_append, cut, cut]
      cases hdrop : dropPrefix? w (c :: u) with
      | some rest =>
          have hocc : c :: (u ++ v) = w ++ (rest ++ v) := by
            rw [← List.append_assoc, ← dropPrefix?_eq_some hdrop, List.cons_append]
          rw [hocc, dropPrefix?_append]
      | none =>
          -- an occurrence here would end in the second part
          have hnone : dropPrefix? w (c :: (u ++ v)) = none := by
            rw [← Option.not_isSome_iff_eq_none, isSome_dropPrefix?] at hdrop ⊢
            intro hocc
            obtain ⟨t, ht⟩ := hocc
            rw [← List.cons_append] at ht
            rcases List.append_eq_append_iff.1 ht with ⟨a, hin, -⟩ | ⟨y, hy, hyv⟩
            · exact hdrop ⟨a, hin.symm⟩
            · have hyne : y ≠ [] := by
                rintro rfl
                rw [List.append_nil] at hy
                exact hdrop (hy ▸ List.prefix_refl _)
              exact h (c :: u) y hy (List.cons_ne_nil _ _) hyne (List.suffix_refl _) ⟨t, hyv.symm⟩
          rw [hnone]
          dsimp only
          rw [ih]
          cases cut w u with
          | some r => rfl
          | none => cases cut w v <;> rfl

/-- The text up to the first occurrence, all of it where there is none. -/
def upTo (w cs : List Char) : List Char := ((cut w cs).map Prod.fst).getD cs

/-! ## Pieces -/

section

variable (l r : Char)

/-- The text begins with `l`, if it has it at all, and ends with `r`, if it has that: no boundary after
an `r` or before an `l` falls into it. -/
structure Unbroken (w : List Char) : Prop where
  ne : w ≠ []
  last : r ∉ w.dropLast
  first : l ∉ w.tail

instance (w : List Char) : Decidable (Unbroken l r w) :=
  decidable_of_iff (w ≠ [] ∧ r ∉ w.dropLast ∧ l ∉ w.tail)
    ⟨fun h => ⟨h.1, h.2.1, h.2.2⟩, fun h => ⟨h.ne, h.last, h.first⟩⟩

/-- Every text ends with `r`, or the next begins with `l`. -/
def Sealed : List (List Char) → Prop
  | [] => True
  | u :: us => (u.getLast? = some r ∨ ∀ c ∈ us.flatten.head?, c = l) ∧ Sealed us

end

variable {l r : Char}

theorem Sealed.append {us vs : List (List Char)} (hus : Sealed l r us) (hvs : Sealed l r vs)
    (hhead : ∀ c ∈ vs.flatten.head?, c = l) : Sealed l r (us ++ vs) := by
  induction us with
  | nil => exact hvs
  | cons u us ih =>
      rw [List.cons_append]
      refine ⟨hus.1.imp_right fun h c hc => ?_, ih hus.2⟩
      rw [List.flatten_append, List.head?_append] at hc
      cases hflat : us.flatten.head? with
      | none =>
          rw [hflat] at hc
          exact hhead c hc
      | some d =>
          rw [hflat] at hc
          rw [hflat] at h
          exact h c hc

/-- No occurrence lies across a sealed boundary. -/
theorem Unbroken.not_across {w u v : List Char} (hw : Unbroken l r w)
    (h : u.getLast? = some r ∨ ∀ c ∈ v.head?, c = l) :
    ∀ x y, w = x ++ y → x ≠ [] → y ≠ [] → x <:+ u → ¬y <+: v := by
  rintro x y rfl hx hy hxu hyv
  rcases h with hlast | hhead
  · -- the part before the boundary would end with `r`
    apply hw.last
    obtain ⟨t, rfl⟩ := hxu
    rw [List.getLast?_append_of_ne_nil _ hx] at hlast
    rw [List.dropLast_append_of_ne_nil hy]
    exact List.mem_append_left _ (List.mem_of_getLast? hlast)
  · -- the part after it would begin with `l`
    apply hw.first
    obtain ⟨t, rfl⟩ := hyv
    obtain ⟨c, y, rfl⟩ := List.exists_cons_of_ne_nil hy
    obtain rfl := hhead c rfl
    rw [List.tail_append_of_ne_nil hx]
    exact List.mem_append_right _ List.mem_cons_self

variable {π : Type} (text : π → List Char)

/-- The first piece with an occurrence, the pieces before it and those after it. -/
def seek (w : List Char) : List π → Option (List π × π × List π)
  | [] => none
  | p :: ps =>
      if (cut w (text p)).isSome then some ([], p, ps)
      else (seek w ps).map fun found => (p :: found.1, found.2)

variable {text}

theorem seek_eq {w : List Char} {ps pre post : List π} {p : π}
    (h : seek text w ps = some (pre, p, post)) : ps = pre ++ p :: post := by
  induction ps generalizing pre with
  | nil => cases h
  | cons q ps ih =>
      rw [seek] at h
      split at h
      · cases h
        rfl
      · obtain ⟨⟨pre', p', post'⟩, hseek, heq⟩ := Option.map_eq_some_iff.1 h
        cases heq
        rw [ih hseek, List.cons_append]

/-- The piece that is found has the text. -/
theorem seek_occurs {w : List Char} {ps pre post : List π} {p : π}
    (h : seek text w ps = some (pre, p, post)) : (cut w (text p)).isSome = true := by
  induction ps generalizing pre with
  | nil => cases h
  | cons q ps ih =>
      rw [seek] at h
      split at h
      · rename_i hq
        cases h
        exact hq
      · obtain ⟨⟨pre', p', post'⟩, hseek, heq⟩ := Option.map_eq_some_iff.1 h
        cases heq
        exact ih hseek

/-- **The first occurrence in sealed pieces is in the first piece that has one.** -/
theorem cut_pieces {w : List Char} (hw : Unbroken l r w) :
    ∀ ps : List π, Sealed l r (ps.map text) →
      cut w (ps.flatMap text) =
        (seek text w ps).bind fun found =>
          (cut w (text found.2.1)).map fun s =>
            (found.1.flatMap text ++ s.1, s.2 ++ found.2.2.flatMap text)
  | [], _ => by rw [List.flatMap_nil, cut, if_neg hw.ne, seek, Option.bind_none]
  | p :: ps, h => by
      have ih := cut_pieces hw ps h.2
      -- the mark lies in one piece
      have hacross := hw.not_across h.1
      rw [← List.flatMap_def] at hacross
      rw [List.flatMap_cons, cut_append hw.ne _ _ hacross, seek]
      cases hcut : cut w (text p) with
      | some s =>
          rw [Option.isSome_some, if_pos rfl, Option.bind_some, hcut]
          rfl
      | none =>
          rw [Option.isSome_none, if_neg Bool.false_ne_true, ih]
          cases hseek : seek text w ps with
          | none => rfl
          | some found =>
              rw [Option.map_some, Option.bind_some, Option.bind_some]
              cases cut w (text found.2.1) with
              | none => rfl
              | some s =>
                  rw [Option.map_some, Option.map_some, Option.map_some, List.flatMap_cons,
                    List.append_assoc]

/-- A place in a piece is the end of one piece only. -/
theorem boundary_unique {k : ℕ} (hk : 0 < k) {ps : List π} (hne : ∀ q ∈ ps, text q ≠ []) :
    ∀ {pre pre' post post' : List π} {p p' : π}, ps = pre ++ p :: post → ps = pre' ++ p' :: post' →
      k ≤ (text p).length →
        (pre.flatMap text).length + k = (pre'.flatMap text).length + (text p').length →
          pre = pre' ∧ p = p' ∧ post = post' ∧ k = (text p).length := by
  have hpos : ∀ q ∈ ps, 0 < (text q).length := fun q hq => List.length_pos_iff.2 (hne q hq)
  clear hne
  induction ps with
  | nil =>
      intro pre pre' post post' p p' h
      exact absurd h (List.append_ne_nil_of_right_ne_nil _ (List.cons_ne_nil _ _)).symm
  | cons q ps ih =>
      rw [List.forall_mem_cons] at hpos
      intro pre pre' post post' p p' h h' hkp hlen
      cases pre with
      | nil =>
          cases h
          cases pre' with
          | nil =>
              cases h'
              exact ⟨rfl, rfl, rfl, by simpa using hlen⟩
          | cons q' pre' =>
              -- a later piece ends after this one
              cases h'
              have hp' := hpos.2 p' (List.mem_append_right _ List.mem_cons_self)
              rw [List.flatMap_cons, List.length_append, List.flatMap_nil, List.length_nil] at hlen
              omega
      | cons q' pre =>
          cases h
          cases pre' with
          | nil =>
              cases h'
              rw [List.flatMap_cons, List.length_append, List.flatMap_nil, List.length_nil] at hlen
              omega
          | cons q'' pre' =>
              rw [List.cons_append, List.cons.injEq] at h'
              obtain ⟨rfl, h'⟩ := h'
              rw [List.flatMap_cons, List.flatMap_cons, List.length_append, List.length_append] at hlen
              obtain ⟨rfl, rfl, rfl, hk'⟩ := ih hpos.2 rfl h' hkp (by omega)
              exact ⟨rfl, rfl, rfl, hk'⟩

end Paac.Text
