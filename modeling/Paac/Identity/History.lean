import Mathlib.Data.Set.Operations
import Paac.Identity.Cache

set_option autoImplicit false

/-!
# The identity cache and its history

A history is the list of the calls made on a cache, each with the clock readings it makes. The
abstract cache is the history itself: its entry under a key is the one of the last `put` or
`invalidate` of that key, and it answers with that entry while it is not older than the time to
live. The only assumption is that the clock does not go back.

The simulation relation (`Records`) says that the cache holds nothing but last puts, and of these it
lacks only such as some call has seen expired. An entry that was swept was expired at a reading of
the clock, and stays so.

## Main results

- `Records.read`, `Records.write`, `Records.sweep`: what each call does to a cache that records a
  history, and `Records.apply` for any of them.
- `records_after`: so the cache records every history, by induction on the calls.
- `Records.answers`: its answers are those of the history while the clock does not go back.
- `historyAnswers_unswept`: no answer depends on when the cache is swept.
- `identity_cache_refines`: the two together.
-/

namespace Paac

/-- A call on a cache. -/
inductive CacheOp where
  | put (key : String) (identity : CanonicalIdentity) (provenance : String) (now : Nat)
  | get (key : String) (now : Nat)
  | getWithProvenance (key : String) (now : Nat)
  | invalidate (key : String)
  | clearExpired (now : String → Nat)

/-- What a read returns. -/
inductive CacheAnswer where
  | identity (found : Option CanonicalIdentity)
  | entry (found : Option CachedIdentity)

namespace CacheOp

/-- The clock readings of a call. -/
def readings : CacheOp → Set Nat
  | put _ _ _ now => {now}
  | get _ now => {now}
  | getWithProvenance _ now => {now}
  | invalidate _ => ∅
  | clearExpired now => Set.range now

/-- The cache after a call. -/
def apply (cache : IdentityCache) : CacheOp → IdentityCache
  | put key identity provenance now => cache.put key identity provenance now
  | get _ _ => cache
  | getWithProvenance _ _ => cache
  | invalidate key => cache.invalidate key
  | clearExpired now => cache.clearExpired now

/-- The answer of a call; only the two reads have one. -/
def answer (cache : IdentityCache) : CacheOp → Option CacheAnswer
  | get key now => some (.identity (cache.get key now))
  | getWithProvenance key now => some (.entry (cache.getWithProvenance key now))
  | _ => none

/-- What a call writes under a key: an entry or nothing, when it is a `put` or an `invalidate` of
that key. -/
def written? (key : String) : CacheOp → Option (Option CachedIdentity)
  | put key' identity provenance now =>
      if key' = key then some (some ⟨identity, provenance, now⟩) else none
  | invalidate key' => if key' = key then some none else none
  | _ => none

end CacheOp

namespace IdentityCache

/-- The cache after a history. -/
def after (ttl : Nat) (ops : List CacheOp) : IdentityCache := ops.foldl CacheOp.apply (new ttl)

/-- The answers of a sequence of calls. -/
def answers (cache : IdentityCache) : List CacheOp → List CacheAnswer
  | [] => []
  | op :: ops => (op.answer cache).toList ++ answers (op.apply cache) ops

/-- No reading of the clock is before a reading of an earlier call. -/
def Ordered (ops : List CacheOp) : Prop :=
  ops.Pairwise fun op op' => ∀ s ∈ op.readings, ∀ t ∈ op'.readings, s ≤ t

/-! ## The history as a cache -/

/-- The entry of the last `put` or `invalidate` of a key, if that is a `put`. -/
def lastPut (key : String) (ops : List CacheOp) : Option CachedIdentity :=
  (ops.reverse.findSome? (CacheOp.written? key)).join

theorem lastPut_snoc (key : String) (ops : List CacheOp) (op : CacheOp) :
    lastPut key (ops ++ [op]) = (op.written? key).getD (lastPut key ops) := by
  rw [lastPut, List.reverse_append, List.reverse_singleton, List.singleton_append,
    List.findSome?_cons]
  cases op.written? key <;> rfl

/-- The last `put` of a key while it is not older than the time to live. -/
def freshPut (ttl : Nat) (ops : List CacheOp) (key : String) (now : Nat) : Option CachedIdentity :=
  (lastPut key ops).filter fun entry => now - entry.insertedAt ≤ ttl

/-- The answer of a call as the history gives it. -/
def historyAnswer (ttl : Nat) (ops : List CacheOp) : CacheOp → Option CacheAnswer
  | .get key now => some (.identity ((freshPut ttl ops key now).map CachedIdentity.identity))
  | .getWithProvenance key now => some (.entry (freshPut ttl ops key now))
  | _ => none

/-- The answers of calls that follow a history, as the history gives them. -/
def historyAnswers (ttl : Nat) (ops : List CacheOp) : List CacheOp → List CacheAnswer
  | [] => []
  | op :: rest => (historyAnswer ttl ops op).toList ++ historyAnswers ttl (ops ++ [op]) rest

/-! ## What the cache keeps of its history -/

/-- Some call read the clock when the entry was too old. -/
def SeenExpired (ttl : Nat) (ops : List CacheOp) (entry : CachedIdentity) : Prop :=
  ∃ op ∈ ops, ∃ s ∈ op.readings, ttl < s - entry.insertedAt

theorem SeenExpired.snoc {ttl : Nat} {ops : List CacheOp} {entry : CachedIdentity}
    (h : SeenExpired ttl ops entry) (op : CacheOp) : SeenExpired ttl (ops ++ [op]) entry := by
  obtain ⟨op', hop, hread⟩ := h
  exact ⟨op', List.mem_append_left _ hop, hread⟩

/-- The cache holds nothing but last puts, and of these it lacks only expired ones. -/
structure Records (ttl : Nat) (ops : List CacheOp) (cache : IdentityCache) : Prop where
  ttl_eq : cache.ttl = ttl
  sound : ∀ key entry, cache.inner.get key = some entry → lastPut key ops = some entry
  complete : ∀ key entry, lastPut key ops = some entry →
    cache.inner.get key = some entry ∨ SeenExpired ttl ops entry

theorem Records.new (ttl : Nat) : Records ttl [] (IdentityCache.new ttl) where
  ttl_eq := rfl
  sound := by
    intro key entry h
    cases h
  complete := by
    intro key entry h
    cases h

section Step

variable {ttl : Nat} {ops : List CacheOp} {cache : IdentityCache}

/-- A call that neither writes nor sweeps. -/
theorem Records.read (h : Records ttl ops cache) {op : CacheOp}
    (hwritten : ∀ key, op.written? key = none) :
    Records ttl (ops ++ [op]) cache where
  ttl_eq := h.ttl_eq
  sound := by
    intro key entry hget
    rw [lastPut_snoc, hwritten]
    exact h.sound key entry hget
  complete := by
    intro key entry hlast
    rw [lastPut_snoc, hwritten] at hlast
    exact (h.complete key entry hlast).imp_right fun hseen => hseen.snoc op

/-- A call that writes one key. -/
theorem Records.write (h : Records ttl ops cache) {op : CacheOp} {key : String}
    {value : Option CachedIdentity} {inner : IndexMap CachedIdentity}
    (hself : op.written? key = some value)
    (hother : ∀ key', key ≠ key' → op.written? key' = none)
    (hget : inner.get key = value)
    (hkeep : ∀ key', key ≠ key' → inner.get key' = cache.inner.get key') :
    Records ttl (ops ++ [op]) { cache with inner := inner } where
  ttl_eq := h.ttl_eq
  sound := by
    intro key' entry hentry
    rw [lastPut_snoc]
    -- the operation writes this key and leaves the others
    by_cases hkey : key = key'
    · subst hkey
      rw [hself, ← hentry]
      exact hget.symm
    · rw [hother key' hkey]
      apply h.sound key' entry
      rw [← hkeep key' hkey]
      exact hentry
  complete := by
    intro key' entry hlast
    rw [lastPut_snoc] at hlast
    by_cases hkey : key = key'
    · subst hkey
      rw [hself] at hlast
      exact Or.inl (hget.trans hlast)
    · rw [hother key' hkey] at hlast
      refine (h.complete key' entry hlast).imp ?_ fun hseen => hseen.snoc op
      intro hentry
      exact (hkeep key' hkey).trans hentry

/-- A sweep: an entry it removes was seen too old by the sweep itself. -/
theorem Records.sweep (h : Records ttl ops cache) (now : String → Nat) :
    Records ttl (ops ++ [.clearExpired now]) (cache.clearExpired now) where
  ttl_eq := h.ttl_eq
  sound := by
    intro key entry hget
    rw [lastPut_snoc]
    apply h.sound key entry
    rw [clearExpired, IndexMap.get_retain, Option.filter_eq_some_iff] at hget
    exact hget.1
  complete := by
    intro key entry hlast
    rw [lastPut_snoc] at hlast
    rcases h.complete key entry hlast with hget | hseen
    · -- an entry that is swept was expired at this very sweep
      by_cases hfresh : now key - entry.insertedAt ≤ ttl
      · apply Or.inl
        rw [clearExpired, IndexMap.get_retain, Option.filter_eq_some_iff, h.ttl_eq]
        exact ⟨hget, decide_eq_true hfresh⟩
      · apply Or.inr
        refine ⟨.clearExpired now, List.mem_append_right _ (List.mem_singleton_self _), now key,
          Set.mem_range_self key, ?_⟩
        omega
    · exact Or.inr (hseen.snoc _)

/-- One call. -/
theorem Records.apply (h : Records ttl ops cache) (op : CacheOp) :
    Records ttl (ops ++ [op]) (op.apply cache) := by
  cases op with
  | put key identity provenance now =>
      have hself : (CacheOp.put key identity provenance now).written? key =
          some (some ⟨identity, provenance, now⟩) := if_pos rfl
      apply h.write hself
      · exact fun key' hkey => if_neg hkey
      · exact IndexMap.get_insert_self ..
      · exact fun key' hkey => IndexMap.get_insert_ne _ hkey _
  | get key now => exact h.read fun _ => rfl
  | getWithProvenance key now => exact h.read fun _ => rfl
  | invalidate key =>
      have hself : (CacheOp.invalidate key).written? key = some none := if_pos rfl
      apply h.write hself
      · exact fun key' hkey => if_neg hkey
      · exact IndexMap.get_remove_self ..
      · exact fun key' hkey => IndexMap.get_remove_ne _ hkey
  | clearExpired now => exact h.sweep now

end Step

/-- A whole history. -/
theorem records_after (ttl : Nat) (ops : List CacheOp) : Records ttl ops (after ttl ops) := by
  induction ops using List.reverseRecOn with
  | nil => exact Records.new ttl
  | append_singleton ops op ih =>
      have hstep : after ttl (ops ++ [op]) = op.apply (after ttl ops) := by
        rw [after, List.foldl_append]
        rfl
      rw [hstep]
      exact ih.apply op

/-! ## Reads -/

/-- An entry is found while it is within the time to live. -/
theorem getWithProvenance_eq_some_iff (cache : IdentityCache) (key : String) (now : Nat)
    (entry : CachedIdentity) : cache.getWithProvenance key now = some entry ↔
      cache.inner.get key = some entry ∧ now - entry.insertedAt ≤ cache.ttl := by
  rw [getWithProvenance, Option.bind_eq_some_iff]
  constructor
  · rintro ⟨found, hget, hfresh⟩
    split at hfresh
    · cases hfresh
    · cases hfresh
      refine ⟨hget, ?_⟩
      omega
  · rintro ⟨hget, hfresh⟩
    refine ⟨entry, hget, if_neg ?_⟩
    omega

/-- A read after every reading of the history finds what the history has: an entry that a sweep
removed is too old now as well. -/
theorem Records.getWithProvenance {ttl : Nat} {ops : List CacheOp} {cache : IdentityCache}
    (h : Records ttl ops cache) {now : Nat} (hlate : ∀ op ∈ ops, ∀ s ∈ op.readings, s ≤ now)
    (key : String) : cache.getWithProvenance key now = freshPut ttl ops key now := by
  apply Option.ext
  intro entry
  rw [getWithProvenance_eq_some_iff, freshPut, Option.filter_eq_some_iff, h.ttl_eq,
    decide_eq_true_eq]
  refine and_congr_left fun hfresh => ⟨h.sound key entry, fun hlast => ?_⟩
  rcases h.complete key entry hlast with hget | ⟨op, hop, s, hs, hold⟩
  · exact hget
  · have hle := hlate op hop s hs
    omega

/-- One call answers as the history does. -/
theorem Records.answer {ttl : Nat} {ops : List CacheOp} {cache : IdentityCache}
    (h : Records ttl ops cache) (op : CacheOp)
    (hlate : ∀ op' ∈ ops, ∀ s ∈ op'.readings, ∀ t ∈ op.readings, s ≤ t) :
    op.answer cache = historyAnswer ttl ops op := by
  cases op with
  | get key now =>
      have hread := h.getWithProvenance (fun op' hop s hs => hlate op' hop s hs now rfl) key
      rw [CacheOp.answer, IdentityCache.get, hread, historyAnswer]
  | getWithProvenance key now =>
      have hread := h.getWithProvenance (fun op' hop s hs => hlate op' hop s hs now rfl) key
      rw [CacheOp.answer, hread, historyAnswer]
  | put key identity provenance now => rfl
  | invalidate key => rfl
  | clearExpired now => rfl

/-- The answers of a run are those of its history. -/
theorem Records.answers {ttl : Nat} {ops : List CacheOp} {cache : IdentityCache}
    (h : Records ttl ops cache) (rest : List CacheOp) (hordered : Ordered (ops ++ rest)) :
    cache.answers rest = historyAnswers ttl ops rest := by
  induction rest generalizing ops cache with
  | nil => rfl
  | cons op rest ih =>
      have hlate : ∀ op' ∈ ops, ∀ s ∈ op'.readings, ∀ t ∈ op.readings, s ≤ t := by
        intro op' hop
        exact (List.pairwise_append.1 hordered).2.2 op' hop op List.mem_cons_self
      rw [List.append_cons] at hordered
      rw [IdentityCache.answers, historyAnswers, h.answer op hlate, ih (h.apply op) hordered]

/-! ## Sweeps -/

/-- The second list is the first one without some of its sweeps. -/
inductive Unswept : List CacheOp → List CacheOp → Prop where
  | nil : Unswept [] []
  | keep (op : CacheOp) {ops ops' : List CacheOp} : Unswept ops ops' →
      Unswept (op :: ops) (op :: ops')
  | drop (now : String → Nat) {ops ops' : List CacheOp} : Unswept ops ops' →
      Unswept (.clearExpired now :: ops) ops'

theorem Unswept.sublist {ops ops' : List CacheOp} (h : Unswept ops ops') : ops'.Sublist ops := by
  induction h with
  | nil => exact List.Sublist.slnil
  | keep op _ ih => exact ih.cons_cons op
  | drop now _ ih => exact ih.cons _

/-- The answers of the history depend on its last puts only, which a sweep does not change. -/
theorem historyAnswers_unswept (ttl : Nat) {rest rest' : List CacheOp} (h : Unswept rest rest') :
    ∀ {ops ops' : List CacheOp}, (∀ key, lastPut key ops' = lastPut key ops) →
      historyAnswers ttl ops' rest' = historyAnswers ttl ops rest := by
  induction h with
  | nil =>
      intro ops ops' _
      rfl
  | keep op _ ih =>
      intro ops ops' hlast
      have hanswer : historyAnswer ttl ops' op = historyAnswer ttl ops op := by
        cases op <;> simp only [historyAnswer, freshPut, hlast]
      rw [historyAnswers, historyAnswers, hanswer, ih]
      intro key
      rw [lastPut_snoc, lastPut_snoc, hlast]
  | drop now _ ih =>
      intro ops ops' hlast
      rw [historyAnswers, ih]
      · rfl
      · intro key
        rw [lastPut_snoc, hlast]
        rfl

/-! ## The refinement -/

/-- How a cache answers over a history of calls. -/
structure RefinesHistory (ttl : Nat) (ops : List CacheOp) : Prop where
  gets : ∀ pre key now post, ops = pre ++ .get key now :: post → ∀ identity,
    (after ttl pre).get key now = some identity ↔
      ∃ entry, lastPut key pre = some entry ∧ now - entry.insertedAt ≤ ttl ∧
        entry.identity = identity
  provenances : ∀ pre key now post, ops = pre ++ .getWithProvenance key now :: post → ∀ entry,
    (after ttl pre).getWithProvenance key now = some entry ↔
      lastPut key pre = some entry ∧ now - entry.insertedAt ≤ ttl
  sweeps : ∀ ops', Unswept ops ops' → (new ttl).answers ops' = (new ttl).answers ops

/-- The abstract cache has an entry while it is within the time to live. -/
theorem freshPut_eq_some_iff (ttl : Nat) (ops : List CacheOp) (key : String) (now : Nat)
    (entry : CachedIdentity) : freshPut ttl ops key now = some entry ↔
      lastPut key ops = some entry ∧ now - entry.insertedAt ≤ ttl := by
  rw [freshPut, Option.filter_eq_some_iff, decide_eq_true_eq]

/-- Before a read of an ordered history the cache answers it as the history does. -/
theorem getWithProvenance_after {ttl now : Nat} {pre post : List CacheOp} {op : CacheOp}
    (hordered : Ordered (pre ++ op :: post)) (hnow : now ∈ op.readings) (key : String) :
    (after ttl pre).getWithProvenance key now = freshPut ttl pre key now := by
  apply (records_after ttl pre).getWithProvenance
  intro op' hop s hs
  exact (List.pairwise_append.1 hordered).2.2 op' hop op List.mem_cons_self s hs now hnow

/-- **The identity cache refines its history.** Under a clock that does not go back, a read finds an
identity exactly when the last `put` or `invalidate` of its key is a `put` that is not older than the
time to live, and finds what that `put` wrote. Sweeps change no answer. -/
theorem identity_cache_refines (ttl : Nat) (ops : List CacheOp) (h : Ordered ops) :
    RefinesHistory ttl ops where
  gets := by
    rintro pre key now post rfl identity
    rw [IdentityCache.get, getWithProvenance_after h rfl, Option.map_eq_some_iff]
    simp only [freshPut_eq_some_iff, and_assoc]
  provenances := by
    rintro pre key now post rfl entry
    rw [getWithProvenance_after h rfl, freshPut_eq_some_iff]
  sweeps := by
    intro ops' hunswept
    have h' : Ordered ops' := h.sublist hunswept.sublist
    rw [(Records.new ttl).answers ops' h', (Records.new ttl).answers ops h]
    exact historyAnswers_unswept ttl hunswept fun _ => rfl

/-- An identity that is read while it is fresh, swept at the last moment of its life and read after
it. -/
def expiring : List CacheOp :=
  [.put "u1" ⟨"u1", "U", none, "test", [], [], .empty⟩ "unit-test" 0, .get "u1" 10,
    .clearExpired fun _ => 30, .getWithProvenance "u1" 30, .invalidate "u2", .get "u1" 40]

/-- Entries that expire between two calls are swept without a trace. -/
theorem expiring_refines : RefinesHistory 30 expiring :=
  identity_cache_refines 30 expiring (by simp [Ordered, expiring, CacheOp.readings])

example : ((after 30 expiring).get "u1" 30).map CanonicalIdentity.id = some "u1" ∧
    (after 30 expiring).get "u1" 31 = none := by decide

end IdentityCache

end Paac
