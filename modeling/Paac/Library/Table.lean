import Mathlib

set_option autoImplicit false

/-!
# Tables with an autoincrement id

A table numbers its rows by a counter that only grows, so the order of the ids is the order of the
insertions. `INSERT OR REPLACE` first removes the row that holds the key of the new one; on a key
that is not there yet it only appends. The ids are SQLite's, below `2 ^ 63`: an insertion fails when
none is left, and the table is then as it was.

The rows carry the proof that their ids ascend and lie below the next id, so a query in the order of
the ids, newest first, is the rows in reverse.

## Main results

- `values_insertOrReplace`: a row with a new key is appended, and nothing else changes.
- `newestFirst_eq`: `ORDER BY id DESC` gives the rows in reverse.
- `recent_of_nonneg`, `recent_of_neg`, `values_recent_cast`: the newest rows up to a limit, also
  where the limit is an unsigned number that the driver reads as a signed one.
- `length_rows_le`: there are no more rows than ids.
-/

namespace Paac

universe u v

/-- The number of ids: SQLite gives ids below `2 ^ 63`. -/
def rowIdBound : Nat := 2 ^ 63

/-- A table `id INTEGER PRIMARY KEY AUTOINCREMENT`: the rows by ascending id, and the next id. -/
structure AutoTable (α : Type u) where
  rows : List (Nat × α)
  next : Nat
  ascending : (rows.map Prod.fst).Pairwise (· < ·)
  below : ∀ r ∈ rows, r.1 < next
  bounded : next ≤ rowIdBound

namespace AutoTable

variable {α : Type u} {κ : Type v}

/-- A new table; the first id is 1. -/
def empty : AutoTable α where
  rows := []
  next := 1
  ascending := List.Pairwise.nil
  below := fun _ h => absurd h List.not_mem_nil
  bounded := by decide

/-- What the rows hold, in the order of their ids. -/
def values (t : AutoTable α) : List α := t.rows.map Prod.snd

/-- The rows without those that hold a key. -/
def without [DecidableEq κ] (key : α → κ) (k : κ) (t : AutoTable α) : AutoTable α where
  rows := t.rows.filter fun r => key r.2 ≠ k
  next := t.next
  ascending := t.ascending.sublist (List.filter_sublist.map Prod.fst)
  below := fun r h => t.below r (List.mem_of_mem_filter h)
  bounded := t.bounded

/-- `INSERT`: the row goes under the next id. -/
def insertRow (t : AutoTable α) (a : α) (hroom : t.next < rowIdBound) : AutoTable α where
  rows := t.rows ++ [(t.next, a)]
  next := t.next + 1
  ascending := by
    rw [List.map_append]
    apply List.pairwise_append.2
    refine ⟨t.ascending, List.pairwise_singleton _ _, ?_⟩
    intro i hi j hj
    obtain ⟨r, hr, rfl⟩ := List.mem_map.1 hi
    obtain rfl := List.mem_singleton.1 hj
    exact t.below r hr
  below := by
    intro r hr
    rcases List.mem_append.1 hr with hr | hr
    · have := t.below r hr
      omega
    · obtain rfl := List.mem_singleton.1 hr
      exact Nat.lt_succ_self _
  bounded := hroom

/-- `INSERT OR REPLACE` with a unique key. The statement fails when no id is left. -/
def insertOrReplace [DecidableEq κ] (key : α → κ) (t : AutoTable α) (a : α) :
    Option (AutoTable α) :=
  if hroom : t.next < rowIdBound then some ((t.without key (key a)).insertRow a hroom) else none

/-- `ORDER BY id DESC`. -/
def newestFirst (t : AutoTable α) : List (Nat × α) :=
  t.rows.mergeSort fun r r' => decide (r'.1 ≤ r.1)

/-- `LIMIT`: a negative limit is none. -/
def limitTo (limit : Int) (rows : List α) : List α :=
  if limit < 0 then rows else rows.take limit.toNat

/-- The rows under the largest ids, largest first. -/
def recent (t : AutoTable α) (limit : Int) : List (Nat × α) := limitTo limit t.newestFirst

/-! ## What the operations do -/

variable (t : AutoTable α)

@[simp] theorem values_empty : (empty : AutoTable α).values = [] := rfl

/-- A row with a new key is appended, and nothing else changes. -/
theorem values_insertOrReplace [DecidableEq κ] {key : α → κ} {t t' : AutoTable α} {a : α}
    (h : t.insertOrReplace key a = some t') (hnew : key a ∉ t.values.map key) :
    t'.values = t.values ++ [a] := by
  unfold insertOrReplace at h
  split at h
  · have hkept : t.rows.filter (fun r => key r.2 ≠ key a) = t.rows := by
      apply List.filter_eq_self.2
      intro r hr
      have hmem : key r.2 ∈ t.values.map key :=
        List.mem_map_of_mem (List.mem_map_of_mem hr)
      have hne : key r.2 ≠ key a := fun heq => hnew (heq ▸ hmem)
      exact decide_eq_true hne
    obtain rfl := Option.some.inj h
    calc ((t.without key (key a)).insertRow a _).values
        = (t.rows.filter (fun r => key r.2 ≠ key a) ++ [(t.next, a)]).map Prod.snd := rfl
      _ = t.values ++ [a] := by rw [hkept, List.map_append]; rfl
  · cases h

theorem newestFirst_eq : t.newestFirst = t.rows.reverse := by
  -- both list the same rows by descending id, and no two rows share one
  have hnodup : (t.rows.map Prod.fst).Nodup := t.ascending.imp Nat.ne_of_lt
  have hsorted : t.newestFirst.Pairwise fun r r' => r'.1 ≤ r.1 := by
    have hmerged := @List.pairwise_mergeSort (Nat × α) fun r r' => decide (r'.1 ≤ r.1)
    apply (hmerged _ _ t.rows).imp
    · exact of_decide_eq_true
    · intro a b c hab hbc
      exact decide_eq_true ((of_decide_eq_true hbc).trans (of_decide_eq_true hab))
    · intro a b
      simpa using Nat.le_total b.1 a.1
  have hreversed : t.rows.reverse.Pairwise fun r r' => r'.1 ≤ r.1 :=
    List.pairwise_reverse.2 ((List.pairwise_map.1 t.ascending).imp Nat.le_of_lt)
  have hperm : t.newestFirst.Perm t.rows := List.mergeSort_perm _ _
  apply List.Perm.eq_of_pairwise _ hsorted hreversed (hperm.trans (List.reverse_perm _).symm)
  intro r r' hr hr' hle hle'
  apply List.inj_on_of_nodup_map hnodup (hperm.mem_iff.1 hr) (List.mem_reverse.1 hr')
  exact Nat.le_antisymm hle' hle

/-- There are no more rows than ids. -/
theorem length_rows_le : t.rows.length ≤ t.next := by
  have hnodup : (t.rows.map Prod.fst).Nodup := t.ascending.imp Nat.ne_of_lt
  have hsub : (t.rows.map Prod.fst).Subperm (List.range t.next) := by
    apply hnodup.subperm
    intro i hi
    obtain ⟨r, hr, rfl⟩ := List.mem_map.1 hi
    exact List.mem_range.2 (t.below r hr)
  have hle := hsub.length_le
  rw [List.length_map, List.length_range] at hle
  exact hle

/-- A limit that counts rows gives the last ones, the newest first. -/
theorem recent_of_nonneg {limit : Int} (h : 0 ≤ limit) :
    (t.recent limit).map Prod.snd = t.values.reverse.take limit.toNat := by
  rw [recent, limitTo, if_neg (not_lt.2 h), newestFirst_eq, List.map_take, List.map_reverse]
  rfl

/-- A negative limit gives all of them. -/
theorem recent_of_neg {limit : Int} (h : limit < 0) :
    (t.recent limit).map Prod.snd = t.values.reverse := by
  rw [recent, limitTo, if_pos h, newestFirst_eq, List.map_reverse]
  rfl

/-- A count that is cast to a signed number before it limits the rows. One that turns negative is
larger than any table. -/
theorem values_recent_cast (limit : UInt64) :
    (t.recent limit.toInt64.toInt).map Prod.snd = t.values.reverse.take limit.toNat := by
  have hcast : limit.toInt64.toInt =
      if 2 * limit.toNat < 2 ^ 64 then (limit.toNat : Int) else limit.toNat - 2 ^ 64 := by
    rw [← Int64.toInt_toBitVec, UInt64.toBitVec_toInt64, BitVec.toInt_eq_toNat_cond]
    rfl
  by_cases hsmall : 2 * limit.toNat < 2 ^ 64
  · rw [hcast, if_pos hsmall, recent_of_nonneg t (Int.natCast_nonneg _), Int.toNat_natCast]
  · have hnegative : limit.toInt64.toInt < 0 := by
      rw [hcast, if_neg hsmall]
      have := limit.toNat_lt
      omega
    have hall : t.values.reverse.length ≤ limit.toNat := by
      have hrows := t.length_rows_le
      have hbound := t.bounded
      rw [List.length_reverse, values, List.length_map]
      simp only [rowIdBound] at hbound
      omega
    rw [recent_of_neg t hnegative, List.take_of_length_le hall]

end AutoTable

end Paac
