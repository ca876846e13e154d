import Mathlib

set_option autoImplicit false

/-!
# Lists searched for a first match

A list is searched from its head for an entry that answers a query, and the first one is taken. Each
entry has a query of its own, one that it answers itself; it is found by that query exactly when no
other entry answers it before. The lemmas are about lists and predicates, and are used for catalogs
that are searched by id, by kind and by name.

## Main results

- `find?_own_iff`: every entry is found by its own query exactly when no entry answers the query of
  a later one.
- `find?_key_iff`: where the query is a key, exactly when no two entries share one.
- `find?_good_iff`: the first match is a good one exactly when a good match is listed before every
  match that is not good.
-/

namespace Paac

universe u v

variable {α : Type u} {κ : Type v}

/-- Where `answers a b` says that `b` answers the query of `a`: in a list without repetition each
entry is found by its own query exactly when no entry before it answers that query. -/
theorem find?_own_iff {answers : α → α → Bool} (hself : ∀ a, answers a a = true) {l : List α}
    (hnodup : l.Nodup) :
    (∀ a ∈ l, l.find? (answers a) = some a) ↔ l.Pairwise fun b a => answers a b = false := by
  induction l with
  | nil => simp
  | cons x xs ih =>
      obtain ⟨hx, hxs⟩ := List.nodup_cons.1 hnodup
      -- an entry of the tail is found behind the head when the head does not answer
      have hskip : ∀ a ∈ xs, ((x :: xs).find? (answers a) = some a ↔
          answers a x = false ∧ xs.find? (answers a) = some a) := by
        intro a ha
        have hne : x ≠ a := fun h => hx (h ▸ ha)
        cases hanswer : answers a x with
        | true => simp [List.find?_cons_of_pos hanswer, hne]
        | false => simp [List.find?_cons_of_neg (Bool.eq_false_iff.1 hanswer)]
      rw [List.pairwise_cons, ← ih hxs, List.forall_mem_cons]
      constructor
      · rintro ⟨-, h⟩
        exact ⟨fun a ha => ((hskip a ha).1 (h a ha)).1, fun a ha => ((hskip a ha).1 (h a ha)).2⟩
      · rintro ⟨hhead, htail⟩
        exact ⟨List.find?_cons_of_pos (hself x),
          fun a ha => (hskip a ha).2 ⟨hhead a ha, htail a ha⟩⟩

/-- Where the query is a key: each entry is found by its key exactly when no two entries share one. -/
theorem find?_key_iff [DecidableEq κ] {key : α → κ} {l : List α} :
    (∀ a ∈ l, l.find? (fun b => key b = key a) = some a) ↔
      ∀ a ∈ l, ∀ b ∈ l, key a = key b → a = b := by
  constructor
  · intro h a ha b hb hkey
    have hfound := h a ha
    rw [hkey, h b hb] at hfound
    exact (Option.some.inj hfound).symm
  · intro h a ha
    have hsome : (l.find? fun b => key b = key a).isSome = true :=
      List.find?_isSome.2 ⟨a, ha, decide_eq_true rfl⟩
    obtain ⟨b, hb⟩ := Option.isSome_iff_exists.1 hsome
    have hkey : key b = key a := by simpa using List.find?_some hb
    rw [hb, h b (List.mem_of_find?_eq_some hb) a ha hkey]

/-- The first match, if there is one, is good exactly when a good match is listed before every other
one. -/
theorem find?_good_iff {answers : α → Bool} {good : α → Prop} {l : List α} :
    (∀ a, l.find? answers = some a → good a) ↔
      ∀ before a after, l = before ++ a :: after → answers a = true → ¬good a →
        ∃ b ∈ before, answers b = true ∧ good b := by
  constructor
  · rintro h before a after rfl hanswer hbad
    cases hfound : before.find? answers with
    | some b =>
        have hfirst : (before ++ a :: after).find? answers = some b := by
          rw [List.find?_append, hfound, Option.some_or]
        exact ⟨b, List.mem_of_find?_eq_some hfound, List.find?_some hfound, h b hfirst⟩
    | none =>
        -- nothing before it answers, so the bad match is the first
        have hfirst : (before ++ a :: after).find? answers = some a := by
          rw [List.find?_append, hfound, Option.none_or, List.find?_cons_of_pos hanswer]
        exact absurd (h a hfirst) hbad
  · intro h a hfound
    obtain ⟨hanswer, before, after, hl, hbefore⟩ := List.find?_eq_some_iff_append.1 hfound
    by_contra hbad
    obtain ⟨b, hb, hbanswer, -⟩ := h before a after hl hanswer hbad
    have hno := hbefore b hb
    rw [hbanswer] at hno
    cases hno

end Paac
