import Mathlib

set_option autoImplicit false

/-!
# Runs of a state machine

A step says what an action does in a state, and whether it is enabled there. A run is a list of
actions, each enabled where it is taken, and ends in a state or not at all (`runFrom`). A property
of the actions so far and the state they lead to that every step preserves holds after every run;
that the property may speak of the actions is what lets an invariant count them or name the last
one.

## Main results

- `runFrom_append`, `runFrom_concat`: a run in two parts, and a run with its last action.
- `runFrom_invariant`: from the step to the run. The step may also use that its state was reached.
- `foldlM_invariant`: the same for a fold whose steps may fail, as a parser over the lines of a text
  is one.
-/

namespace Paac

universe u v

variable {α : Type u} {σ : Type v} (step : σ → α → Option σ)

/-- The state after a run of actions, when each of them is enabled. -/
def runFrom (s : σ) (acts : List α) : Option σ := acts.foldlM step s

@[simp] theorem runFrom_nil (s : σ) : runFrom step s [] = some s := rfl

theorem runFrom_append (s : σ) (acts acts' : List α) :
    runFrom step s (acts ++ acts') = (runFrom step s acts).bind fun s' => runFrom step s' acts' :=
  List.foldlM_append

/-- A run ends with its last action. -/
theorem runFrom_concat {s t : σ} {acts : List α} {a : α} :
    runFrom step s (acts ++ [a]) = some t ↔ ∃ m, runFrom step s acts = some m ∧ step m a = some t := by
  rw [runFrom_append]
  simp [runFrom, Option.bind_eq_some_iff]

variable {step} {P : List α → σ → Prop}

/-- What holds at the start and is preserved by every step holds after every run. -/
theorem runFrom_invariant {s : σ} (hstart : P [] s)
    (hstep : ∀ acts m a t, runFrom step s acts = some m → P acts m → step m a = some t →
      P (acts ++ [a]) t) :
    ∀ {acts : List α} {t : σ}, runFrom step s acts = some t → P acts t := by
  intro acts
  induction acts using List.reverseRecOn with
  | nil =>
      intro t h
      obtain rfl := Option.some.inj h
      exact hstart
  | append_singleton acts a ih =>
      intro t h
      obtain ⟨m, hm, ht⟩ := (runFrom_concat step).1 h
      exact hstep acts m a t hm (ih hm) ht

/-! ## Folds with errors -/

/-- What holds at the start and is preserved by every step that succeeds holds after a fold that
succeeds. -/
theorem foldlM_invariant {ε : Type} {f : σ → α → Except ε σ} {P : List α → σ → Prop}
    (hstep : ∀ done s a t, P done s → f s a = .ok t → P (done ++ [a]) t) {as : List α} {s t : σ}
    (hstart : P [] s) (h : as.foldlM f s = .ok t) : P as t := by
  -- the invariant is about what is done, so the induction is on what is left
  have hfrom : ∀ (rest done : List α) (s : σ), P done s → rest.foldlM f s = .ok t →
      P (done ++ rest) t := by
    intro rest
    induction rest with
    | nil =>
        intro done s hs h
        rw [← Except.ok.inj h, List.append_nil]
        exact hs
    | cons a rest ih =>
        intro done s hs h
        rw [List.foldlM_cons] at h
        cases hm : f s a with
        | error e =>
            rw [hm] at h
            cases h
        | ok m =>
            rw [hm] at h
            have hdone := ih (done ++ [a]) m (hstep done s a m hs hm) h
            rwa [List.append_assoc, List.singleton_append] at hdone
  exact hfrom as [] s hstart h

end Paac
