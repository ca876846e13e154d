import Paac.Library.Text

set_option autoImplicit false

/-!
# Insertion-ordered maps with string keys

`IndexMap` is a list of entries in insertion order together with the proof that no key occurs twice;
inserting under a key that is present replaces its value in place. The proof is a field, so a map
with two entries of one key cannot be built, and no lemma has to assume it.

The two operations are first defined on bare entry lists (`lookupEntry`, `insertEntry`), where JSON
objects use them too: the members of an object may repeat a name, and reading them into a map is
`insertEntries`. A hash map of the source is modelled by the same structure where only lookups are
made, since those do not depend on the order.

## Main results

- `lookupEntry_insertEntry`: what is found after an insertion, under the key itself and another one.
- `lookupEntry_insertEntries`: what is found after a list of insertions: the last one of the key, or
  what was there before.
- `nodup_insertEntry`, `nodup_filter`: the keys stay distinct, so a map is built by construction.
- `lookupEntry_reverse`: with distinct keys the order does not matter to a lookup.
- `IndexMap.get_insert_self`, `IndexMap.get_insert_ne`, `IndexMap.get_retain`,
  `IndexMap.get_remove_ne`, `IndexMap.keys_insert`: the same of maps, as the rules that later
  modules rewrite with.
-/

namespace Paac

universe u

variable {β : Type u}

/-! ## Entry lists -/

/-- The value of the first entry under `k`. -/
def lookupEntry (k : String) : List (String × β) → Option β
  | [] => none
  | (k', v) :: rest => if k' = k then some v else lookupEntry k rest

/-- Replace the value under `k`, or append a new entry when the key is absent. -/
def insertEntry (k : String) (v : β) : List (String × β) → List (String × β)
  | [] => [(k, v)]
  | (k', v') :: rest => if k' = k then (k, v) :: rest else (k', v') :: insertEntry k v rest

/-- Insert entries from left to right. -/
def insertEntries (es : List (String × β)) (new : List (String × β)) : List (String × β) :=
  new.foldl (fun acc e => insertEntry e.1 e.2 acc) es

theorem lookupEntry_cons_ne {k k' : String} (h : k' ≠ k) (v : β) (es : List (String × β)) :
    lookupEntry k ((k', v) :: es) = lookupEntry k es := by
  rw [lookupEntry, if_neg h]

@[simp] theorem lookupEntry_insertEntry_self (k : String) (v : β) (es : List (String × β)) :
    lookupEntry k (insertEntry k v es) = some v := by
  induction es with
  | nil => simp [insertEntry, lookupEntry]
  | cons e rest ih =>
      rcases e with ⟨k', v'⟩
      by_cases h : k' = k
      · simp [insertEntry, lookupEntry, h]
      · simp [insertEntry, lookupEntry, h, ih]

/-- Other keys keep their values. -/
theorem lookupEntry_insertEntry_ne {k k' : String} (h : k' ≠ k) (v : β)
    (es : List (String × β)) :
    lookupEntry k (insertEntry k' v es) = lookupEntry k es := by
  induction es with
  | nil => simp [insertEntry, lookupEntry, h]
  | cons e rest ih =>
      rcases e with ⟨k₀, v₀⟩
      by_cases h₀ : k₀ = k'
      · subst h₀
        simp [insertEntry, lookupEntry, h]
      · simp only [insertEntry, if_neg h₀, lookupEntry, ih]

theorem lookupEntry_insertEntry (k k' : String) (v : β) (es : List (String × β)) :
    lookupEntry k (insertEntry k' v es) = if k' = k then some v else lookupEntry k es := by
  by_cases h : k' = k
  · subst h
    simp
  · rw [lookupEntry_insertEntry_ne h, if_neg h]

/-- Among inserted entries the last one under a key wins; entries of other keys do not matter. -/
theorem lookupEntry_insertEntries (k : String) (new : List (String × β)) :
    ∀ es : List (String × β), lookupEntry k (insertEntries es new) =
      (lookupEntry k new.reverse).or (lookupEntry k es) := by
  induction new using List.reverseRecOn with
  | nil => intro es; simp [insertEntries, lookupEntry]
  | append_singleton new e ih =>
      intro es
      have hstep : insertEntries es (new ++ [e]) =
          insertEntry e.1 e.2 (insertEntries es new) := by
        simp [insertEntries, List.foldl_append]
      rw [hstep, lookupEntry_insertEntry, ih, List.reverse_append]
      rcases e with ⟨k', v'⟩
      by_cases h : k' = k
      · simp [lookupEntry, h]
      · simp [lookupEntry, h]

theorem insertEntries_append (es new₁ new₂ : List (String × β)) :
    insertEntries es (new₁ ++ new₂) = insertEntries (insertEntries es new₁) new₂ := by
  simp [insertEntries, List.foldl_append]

/-- A key that is not there is appended. -/
theorem insertEntry_of_not_mem {k : String} {es : List (String × β)} (h : k ∉ es.map Prod.fst)
    (v : β) : insertEntry k v es = es ++ [(k, v)] := by
  induction es with
  | nil => rfl
  | cons e es ih =>
      rcases e with ⟨k', v'⟩
      rw [List.map_cons, List.mem_cons, not_or] at h
      rw [insertEntry, if_neg (Ne.symm h.1), ih h.2, List.cons_append]

/-- Inserting distinct new keys appends. -/
theorem insertEntries_of_nodup {new : List (String × β)} :
    ∀ {es : List (String × β)}, ((es ++ new).map Prod.fst).Nodup →
      insertEntries es new = es ++ new := by
  induction new with
  | nil => intro es _; rw [List.append_nil]; rfl
  | cons e new ih =>
      intro es hnd
      have hout : e.1 ∉ es.map Prod.fst := by
        rw [List.map_append, List.nodup_append] at hnd
        exact fun hmem => hnd.2.2 _ hmem _ (List.mem_map_of_mem List.mem_cons_self) rfl
      have hsplit : es ++ e :: new = (es ++ [e]) ++ new := by simp
      rw [hsplit] at hnd ⊢
      rw [← ih hnd, ← insertEntry_of_not_mem hout e.2]
      rfl

/-- A lookup in two lists: the first one counts. -/
theorem lookupEntry_append (k : String) (es es' : List (String × β)) :
    lookupEntry k (es ++ es') = (lookupEntry k es).or (lookupEntry k es') := by
  induction es with
  | nil => simp [lookupEntry]
  | cons e rest ih =>
      rcases e with ⟨k', v'⟩
      by_cases h : k' = k
      · simp [lookupEntry, h]
      · simp [lookupEntry, h, ih]

theorem lookupEntry_eq_none_iff (k : String) (es : List (String × β)) :
    lookupEntry k es = none ↔ k ∉ es.map Prod.fst := by
  induction es with
  | nil => simp [lookupEntry]
  | cons e rest ih =>
      rcases e with ⟨k', v'⟩
      by_cases h : k' = k
      · simp [lookupEntry, h]
      · have h' : ¬k = k' := fun e => h e.symm
        simp only [lookupEntry, if_neg h, ih, List.map_cons, List.mem_cons, h', false_or]

theorem lookupEntry_isSome_of_mem {k : String} {es : List (String × β)}
    (h : k ∈ es.map Prod.fst) : (lookupEntry k es).isSome := by
  cases hl : lookupEntry k es with
  | some v => rfl
  | none => exact absurd h ((lookupEntry_eq_none_iff k es).1 hl)

/-- With distinct keys every entry is found. -/
theorem lookupEntry_of_mem {es : List (String × β)} (hnd : (es.map Prod.fst).Nodup)
    {e : String × β} (he : e ∈ es) : lookupEntry e.1 es = some e.2 := by
  induction es with
  | nil => cases he
  | cons e' es ih =>
      rw [List.map_cons, List.nodup_cons] at hnd
      rcases List.mem_cons.1 he with rfl | he
      · exact if_pos rfl
      · rw [lookupEntry, if_neg, ih hnd.2 he]
        rintro hkey
        exact hnd.1 (hkey ▸ List.mem_map_of_mem he)

/-- A value that is found is that of an entry. -/
theorem mem_of_lookupEntry {k : String} {v : β} {es : List (String × β)}
    (h : lookupEntry k es = some v) : (k, v) ∈ es := by
  induction es with
  | nil => cases h
  | cons e es ih =>
      rcases e with ⟨k', v'⟩
      rw [lookupEntry] at h
      split at h
      · rename_i hk
        rw [← hk, ← Option.some.inj h]
        exact List.mem_cons_self
      · exact List.mem_cons_of_mem _ (ih h)

/-- With distinct keys the order of the entries does not matter to a lookup. -/
theorem lookupEntry_reverse {es : List (String × β)} (hnd : (es.map Prod.fst).Nodup)
    (k : String) : lookupEntry k es.reverse = lookupEntry k es := by
  induction es with
  | nil => rfl
  | cons e rest ih =>
      rcases e with ⟨k', v'⟩
      rw [List.map_cons, List.nodup_cons] at hnd
      rw [List.reverse_cons, lookupEntry_append, ih hnd.2]
      by_cases h : k' = k
      · subst h
        have hnone : lookupEntry k' rest = none := (lookupEntry_eq_none_iff k' rest).2 hnd.1
        simp [lookupEntry, hnone]
      · simp [lookupEntry, h]

/-- Insertion keeps the keys in place and appends a new one. -/
theorem map_fst_insertEntry (k : String) (v : β) (es : List (String × β)) :
    (insertEntry k v es).map Prod.fst =
      if k ∈ es.map Prod.fst then es.map Prod.fst else es.map Prod.fst ++ [k] := by
  induction es with
  | nil => simp [insertEntry]
  | cons e rest ih =>
      rcases e with ⟨k', v'⟩
      by_cases h : k' = k
      · simp [insertEntry, h]
      · have h' : ¬k = k' := fun e => h e.symm
        simp only [insertEntry, if_neg h, List.map_cons, ih, List.mem_cons, h', false_or]
        split <;> rfl

/-- Insertion keeps the keys distinct. -/
theorem nodup_insertEntry (k : String) (v : β) {es : List (String × β)}
    (hnd : (es.map Prod.fst).Nodup) : ((insertEntry k v es).map Prod.fst).Nodup := by
  rw [map_fst_insertEntry]
  split
  · exact hnd
  · rename_i hk
    exact List.nodup_append.2 ⟨hnd, List.nodup_singleton k, by
      rintro a ha b hb rfl
      rw [List.mem_singleton] at hb
      exact hk (hb ▸ ha)⟩

/-- The value of a key among the entries that a test keeps. -/
theorem lookupEntry_filter (p : String → β → Bool) (k : String) {es : List (String × β)}
    (hnd : (es.map Prod.fst).Nodup) :
    lookupEntry k (es.filter fun e => p e.1 e.2) = (lookupEntry k es).filter (p k) := by
  induction es with
  | nil => rfl
  | cons e es ih =>
      rcases e with ⟨k', v⟩
      rw [List.map_cons, List.nodup_cons] at hnd
      rw [List.filter_cons, lookupEntry]
      by_cases h : k' = k
      · subst h
        rw [if_pos rfl, Option.filter_some]
        split
        · exact if_pos rfl
        · -- the key does not occur again
          have hnone := (lookupEntry_eq_none_iff k' es).2 hnd.1
          rw [ih hnd.2, hnone]
          rfl
      · rw [if_neg h, ← ih hnd.2]
        split
        · exact lookupEntry_cons_ne h v _
        · rfl

theorem nodup_filter (p : String × β → Bool) {es : List (String × β)}
    (hnd : (es.map Prod.fst).Nodup) : ((es.filter p).map Prod.fst).Nodup :=
  hnd.sublist (List.filter_sublist.map Prod.fst)

/-! ## The map -/

/-- A map from strings that remembers insertion order; a key occurs at most once. -/
structure IndexMap (β : Type u) where
  entries : List (String × β)
  nodup : (entries.map Prod.fst).Nodup

namespace IndexMap

/-- `IndexMap::new`. -/
def empty : IndexMap β := ⟨[], List.nodup_nil⟩

instance : Inhabited (IndexMap β) := ⟨empty⟩

instance : EmptyCollection (IndexMap β) := ⟨empty⟩

instance [DecidableEq β] : DecidableEq (IndexMap β) := fun m m' =>
  decidable_of_iff (m.entries = m'.entries) (by
    cases m
    cases m'
    simp)

/-- `IndexMap::get`. -/
def get (m : IndexMap β) (k : String) : Option β := lookupEntry k m.entries

/-- `IndexMap::insert`. -/
def insert (m : IndexMap β) (k : String) (v : β) : IndexMap β :=
  ⟨insertEntry k v m.entries, nodup_insertEntry k v m.nodup⟩

/-- `HashMap::retain`. -/
def retain (m : IndexMap β) (p : String → β → Bool) : IndexMap β :=
  ⟨m.entries.filter fun e => p e.1 e.2, nodup_filter _ m.nodup⟩

/-- `HashMap::remove`. -/
def remove (m : IndexMap β) (k : String) : IndexMap β := m.retain fun k' _ => k' ≠ k

/-- `IndexMap::keys`. -/
def keys (m : IndexMap β) : List String := m.entries.map Prod.fst

/-- The map built by inserting the entries of a list in order. -/
def ofList (es : List (String × β)) : IndexMap β :=
  es.foldl (fun m e => m.insert e.1 e.2) empty

theorem entries_foldl_insert (es : List (String × β)) (m : IndexMap β) :
    (es.foldl (fun m e => m.insert e.1 e.2) m).entries = insertEntries m.entries es := by
  induction es generalizing m with
  | nil => rfl
  | cons e es ih => exact ih _

/-- A map is built again from its entries. -/
theorem ofList_entries (m : IndexMap β) : ofList m.entries = m := by
  have hentries : (ofList m.entries).entries = m.entries :=
    (entries_foldl_insert m.entries empty).trans (insertEntries_of_nodup m.nodup)
  cases m
  cases h : ofList _
  rw [h] at hentries
  simpa using hentries

@[simp] theorem get_empty (k : String) : (empty : IndexMap β).get k = none := rfl

@[simp] theorem get_insert_self (m : IndexMap β) (k : String) (v : β) :
    (m.insert k v).get k = some v :=
  lookupEntry_insertEntry_self k v m.entries

theorem get_insert_ne (m : IndexMap β) {k k' : String} (h : k' ≠ k) (v : β) :
    (m.insert k' v).get k = m.get k :=
  lookupEntry_insertEntry_ne h v m.entries

theorem get_retain (m : IndexMap β) (p : String → β → Bool) (k : String) :
    (m.retain p).get k = (m.get k).filter (p k) :=
  lookupEntry_filter p k m.nodup

@[simp] theorem get_remove_self (m : IndexMap β) (k : String) : (m.remove k).get k = none := by
  rw [remove, get_retain, Option.filter_eq_none_iff]
  intro v _
  simp

theorem get_remove_ne (m : IndexMap β) {k k' : String} (h : k' ≠ k) :
    (m.remove k').get k = m.get k := by
  rw [remove, get_retain]
  cases m.get k with
  | none => rfl
  | some v =>
      rw [Option.filter_some, if_pos]
      exact decide_eq_true h.symm

@[simp] theorem keys_empty : (empty : IndexMap β).keys = [] := rfl

theorem keys_insert (m : IndexMap β) (k : String) (v : β) :
    (m.insert k v).keys = if k ∈ m.keys then m.keys else m.keys ++ [k] :=
  map_fst_insertEntry k v m.entries

theorem mem_keys_insert (m : IndexMap β) (k k' : String) (v : β) :
    k' ∈ (m.insert k v).keys ↔ k' = k ∨ k' ∈ m.keys := by
  rw [keys_insert]
  split
  · rename_i hk
    constructor
    · exact Or.inr
    · rintro (rfl | h)
      · exact hk
      · exact h
  · rw [List.mem_append, List.mem_singleton, or_comm]

end IndexMap

end Paac
