import Paac.Library.Concurrent

set_option autoImplicit false

/-!
# Programs that succeed

`Total P m Q` says that a program which starts in `P` succeeds, with a result and a state in `Q`. A
triple says what a failing program leaves behind; here there is nothing to leave. So a triple serves
the invariants, which must hold wherever a program stops, and this the liveness results: that a
program does come to its result, given that the accesses it makes work.

## Main results

- `Total.bind`: each program of a sequence starts in what the one before it ends in.
- `Total.mono`: less may be demanded before, and more known after.
- `total_exists`, `total_and`: what is known of the state before may be named, and what does not
  depend on it assumed.
- `Total.bind_outcome`, `Total.state`: from the statement to the outcome of a run.
- `Eff.Total.within`: a program on a part of the state.
-/

namespace Paac.Eff

universe u

variable {ε σ κ α β : Type u}

/-- From `P` the program succeeds in `Q`. -/
def Total (P : σ → Prop) (m : Eff ε σ κ α) (Q : α → σ → Prop) : Prop :=
  ∀ s, P s → ∃ a, (m s).result = .ok a ∧ Q a (m s).state

variable {P : σ → Prop} {Q : α → σ → Prop} {m : Eff ε σ κ α}

theorem total_pure {Q : α → σ → Prop} (a : α) (hP : ∀ s, P s → Q a s) :
    Total P (pure a : Eff ε σ κ α) Q :=
  fun s hs => ⟨a, rfl, hP s hs⟩

theorem total_modify (f : σ → σ) {Q : PUnit → σ → Prop} (hP : ∀ s, P s → Q ⟨⟩ (f s)) :
    Total P (modify f : Eff ε σ κ PUnit) Q :=
  fun s hs => ⟨⟨⟩, rfl, hP s hs⟩

/-- A result that is there. -/
theorem total_lift {r : Except ε α} {a : α} (hr : r = .ok a) (hP : ∀ s, P s → Q a s) :
    Total P (lift r : Eff ε σ κ α) Q :=
  fun s hs => ⟨a, hr, hP s hs⟩

/-- **Sequencing**: each program starts in what the one before it ends in. -/
theorem Total.bind {f : α → Eff ε σ κ β} {R : β → σ → Prop} (hm : Total P m Q)
    (hf : ∀ a, Total (Q a) (f a) R) : Total P (m >>= f) R := by
  intro s hs
  obtain ⟨a, ha, hQ⟩ := hm s hs
  obtain ⟨b, hb, hR⟩ := hf a _ hQ
  rw [bind_ok ha]
  exact ⟨b, hb, hR⟩

/-- After a program that succeeds the next one decides the outcome. -/
theorem Total.bind_outcome {f : α → Eff ε σ κ β} {F : Except ε β → σ → Prop} (hm : Total P m Q)
    (hf : ∀ a s, Q a s → F (f a s).result (f a s).state) {s : σ} (hs : P s) :
    F ((m >>= f) s).result ((m >>= f) s).state := by
  obtain ⟨a, ha, hQ⟩ := hm s hs
  rw [bind_ok ha]
  exact hf a _ hQ

/-- The state that a program which succeeds leaves. -/
theorem Total.state {R : σ → Prop} (h : Total P m fun _ => R) {s : σ} (hs : P s) : R (m s).state := by
  obtain ⟨-, -, hR⟩ := h s hs
  exact hR

/-- **Consequence**. -/
theorem Total.mono {P' : σ → Prop} {Q' : α → σ → Prop} (h : Total P m Q)
    (hP : ∀ s, P' s → P s) (hQ : ∀ a s, Q a s → Q' a s) : Total P' m Q' := by
  intro s hs
  obtain ⟨a, ha, hQa⟩ := h s (hP s hs)
  exact ⟨a, ha, hQ a _ hQa⟩

/-- What is known of a state before the program may be named. -/
theorem total_exists {ι : Sort*} {P : ι → σ → Prop} (h : ∀ i, Total (P i) m Q) :
    Total (fun s => ∃ i, P i s) m Q :=
  fun s ⟨i, hs⟩ => h i s hs

/-- A fact that does not depend on the state may be assumed. -/
theorem total_and {p : Prop} (h : p → Total P m Q) : Total (fun s => p ∧ P s) m Q :=
  fun s hs => h hs.1 s hs.2

end Paac.Eff

namespace Paac

variable {ε ε' σ τ κ α : Type}

/-- A program that succeeds on a part of the state does so in the whole, and leaves the rest. -/
theorem Eff.Total.within {P : σ → Prop} {m : Eff ε σ κ α} {Q : α → σ → Prop}
    (h : Eff.Total P m Q) (part : Part σ τ) (f : ε → ε') {F : τ → Prop}
    (hF : ∀ a t, F t → F (part.set a t)) :
    Eff.Total (fun t => P (part.get t) ∧ F t) (m.within part f)
      (fun a t => Q a (part.get t) ∧ F t) := by
  intro t ht
  obtain ⟨a, ha, hQ⟩ := h _ ht.1
  refine ⟨a, ?_, ?_, hF _ _ ht.2⟩
  · simp only [Eff.within, ha]
    rfl
  · simp only [Eff.within, part.get_set]
    exact hQ

end Paac
