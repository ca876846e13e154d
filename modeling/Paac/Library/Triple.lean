import Paac.Library.Effect

set_option autoImplicit false

/-!
# Pre- and postconditions

`Triple P m Q R` says what a program does from a state in `P`: when it succeeds with `a` the state
it leaves is in `Q a`, and when it fails the state is in `R`. A failing program keeps what it did
before, so `R` is about every point at which it may stop: with `R` an invariant, a triple says that
the invariant survives a fault at any access.

`Moves S m` is the frame of a program: however it ends, the state it leaves stands in the relation
`S` to the one it started in. For a preorder `S` (what only grows, what stays the same) it is enough
to look at the parts of the program.

## Main results

- `Triple.bind`, `Triple.mono`: sequencing and consequence.
- `triple_exists`, `triple_and`: what is known before may be named and assumed.
- `triple_pure`, `triple_fail`, `triple_modify`: the programs that do one thing.
- `Moves.bind`: a sequence moves as its parts do.
-/

namespace Paac.Eff

universe u

variable {ε σ κ α β : Type u}

/-- From `P` the program ends in `Q`, or fails in `R`. -/
def Triple (P : σ → Prop) (m : Eff ε σ κ α) (Q : α → σ → Prop) (R : σ → Prop) : Prop :=
  ∀ s, P s → (∀ a, (m s).result = .ok a → Q a (m s).state) ∧
    ∀ e, (m s).result = .error e → R (m s).state

variable {P R : σ → Prop} {Q : α → σ → Prop} {m : Eff ε σ κ α}

theorem triple_pure {Q : α → σ → Prop} (a : α) (hP : ∀ s, P s → Q a s) :
    Triple P (pure a : Eff ε σ κ α) Q R :=
  fun s hs => ⟨fun b hb => (Except.ok.inj hb) ▸ hP s hs, fun e he => (by cases he)⟩

theorem triple_fail (e : ε) (hP : ∀ s, P s → R s) : Triple P (fail e : Eff ε σ κ α) Q R :=
  fun s hs => ⟨fun a ha => (by cases ha), fun _ _ => hP s hs⟩

theorem triple_modify (f : σ → σ) {Q : PUnit → σ → Prop} (hP : ∀ s, P s → Q ⟨⟩ (f s)) :
    Triple P (modify f : Eff ε σ κ PUnit) Q R :=
  fun s hs => ⟨fun _ _ => hP s hs, fun e he => (by cases he)⟩

/-- **Sequencing**: the second program starts in what the first one ends in. -/
theorem Triple.bind {f : α → Eff ε σ κ β} {S : β → σ → Prop} (hm : Triple P m Q R)
    (hf : ∀ a, Triple (Q a) (f a) S R) : Triple P (m >>= f) S R := by
  intro s hs
  cases h : (m s).result with
  | error e =>
      rw [bind_error h]
      exact ⟨fun b hb => (by cases hb), fun _ _ => (hm s hs).2 e h⟩
  | ok a =>
      rw [bind_ok h]
      exact hf a _ ((hm s hs).1 a h)

/-- **Consequence**: less may be demanded before, and more known after. -/
theorem Triple.mono {P' R' : σ → Prop} {Q' : α → σ → Prop} (h : Triple P m Q R)
    (hP : ∀ s, P' s → P s) (hQ : ∀ a s, Q a s → Q' a s) (hR : ∀ s, R s → R' s) :
    Triple P' m Q' R' :=
  fun s hs => ⟨fun a ha => hQ a _ ((h s (hP s hs)).1 a ha), fun e he => hR _ ((h s (hP s hs)).2 e he)⟩

/-- What is known of a state before the program may be named. -/
theorem triple_exists {ι : Sort*} {P : ι → σ → Prop} (h : ∀ i, Triple (P i) m Q R) :
    Triple (fun s => ∃ i, P i s) m Q R :=
  fun s ⟨i, hs⟩ => h i s hs

/-- A fact that does not depend on the state may be assumed. -/
theorem triple_and {p : Prop} (h : p → Triple P m Q R) : Triple (fun s => p ∧ P s) m Q R :=
  fun s hs => h hs.1 s hs.2

/-! ## What a program leaves alone -/

/-- However the program ends, its state stands in this relation to the one before. -/
def Moves (S : σ → σ → Prop) (m : Eff ε σ κ α) : Prop := ∀ s, S s (m s).state

variable {S : σ → σ → Prop}

theorem moves_modify (f : σ → σ) (h : ∀ s, S s (f s)) : Moves S (modify f : Eff ε σ κ PUnit) := h

variable [IsPreorder σ S]

theorem moves_lift (r : Except ε α) : Moves S (lift r : Eff ε σ κ α) := fun s => refl s

theorem moves_pure (a : α) : Moves S (pure a : Eff ε σ κ α) := fun s => refl s

theorem moves_fail (e : ε) : Moves S (fail e : Eff ε σ κ α) := fun s => refl s

/-- **Sequencing**: a sequence moves as its parts do. -/
theorem Moves.bind {f : α → Eff ε σ κ β} (hm : Moves S m) (hf : ∀ a, Moves S (f a)) :
    Moves S (m >>= f) := by
  intro s
  cases h : (m s).result with
  | error e =>
      rw [bind_error h]
      exact hm s
  | ok a =>
      rw [bind_ok h]
      exact IsTrans.trans _ _ _ (hm s) (hf a _)

end Paac.Eff
